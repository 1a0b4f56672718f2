/-!
Lines of a log.
-/

namespace JavaFrontend

/-- How much attention a line of a log asks for. -/
inductive LogLevel where
  | trace | debug | info | warn
deriving DecidableEq, Repr

/-- A line of a log. -/
structure LogLine where
  level : LogLevel
  message : String
deriving DecidableEq, Repr

end JavaFrontend
