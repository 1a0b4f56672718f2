import JavaFrontend.Text.Position
import JavaFrontend.Token.Kind
import JavaFrontend.Token.LexError

/-!
Tokens: a kind, the text they were written as, where they start and what they stand for.
-/

namespace JavaFrontend

/-- What a token stands for: the decoded value of a literal, or why its text is no token. Integer
values are two's complement words and floating-point values are given by their bits. -/
inductive TokenValue where
  | none
  | int (value : Int32)
  | long (value : Int64)
  | float (bits : UInt32)
  | double (bits : UInt64)
  | char (value : Char)
  | string (value : String)
  | error (reason : LexError)
deriving DecidableEq, Repr

/-- A token of a source text. -/
structure Token where
  kind : Kind
  text : String
  position : Position
  value : TokenValue := .none
deriving DecidableEq, Repr

namespace Token

/-- The mark at the end of the input. -/
def endOfInput (position : Position) : Token := { kind := .endOfInput, text := "", position }

/-- Why the text of the token is no token, if so. -/
def error? (token : Token) : Option LexError :=
  match token.value with
  | .error reason => some reason
  | _ => none

end Token

end JavaFrontend
