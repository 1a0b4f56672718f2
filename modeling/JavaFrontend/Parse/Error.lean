import JavaFrontend.Reduction.Error
import JavaFrontend.Text.Position
import JavaFrontend.Token.Kind
import JavaFrontend.Token.LexError

/-!
Why an input could not be parsed.
-/

namespace JavaFrontend

/-- Why an input could not be parsed. -/
inductive ParseError where
  /-- Some of the text is no token. -/
  | lexical (position : Position) (reason : LexError)
  /-- No rule goes on with the token that was found; the expected ones are in the order of the
  kinds. -/
  | unexpected (position : Position) (found : Kind) (expected : List Kind)
  /-- The grammar and the way of building trees do not fit together. -/
  | internal (reason : ReduceError)
deriving DecidableEq, Repr

namespace ParseError

def position? : ParseError → Option Position
  | .lexical position _ => some position
  | .unexpected position _ _ => some position
  | .internal _ => none

/-- Whether the input is not to blame. -/
def isInternal : ParseError → Bool
  | .internal _ => true
  | _ => false

def message : ParseError → String
  | .lexical _ reason => reason.message
  | .unexpected position found expected =>
    "Syntax error at " ++ toString position ++ ": found " ++ found.display ++
      ", expected one of: " ++ ", ".intercalate (expected.map Kind.display)
  | .internal reason => "Internal error: " ++ reason.message

end ParseError

end JavaFrontend
