/-!
Why a completed rule could not be made into a node. Each reason means that the grammar and the way
of building trees do not fit together; none is the fault of the input.
-/

namespace JavaFrontend

/-- Why a completed rule could not be made into a node. -/
inductive ReduceError where
  | noReduction (rule : String)
  | unexpectedOperand (rule expected found : String)
  | missingOperand (rule : String)
deriving DecidableEq, Repr

namespace ReduceError

def message : ReduceError → String
  | .noReduction rule => "No reduction registered for rule " ++ rule
  | .unexpectedOperand rule expected found =>
    "Rule " ++ rule ++ ": expected " ++ expected ++ ", found " ++ found
  | .missingOperand rule => "Rule " ++ rule ++ ": ran out of operands"

end ReduceError

end JavaFrontend
