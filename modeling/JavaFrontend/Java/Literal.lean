import JavaFrontend.Token.Basic

/-!
Literals of Java sources.
-/

namespace JavaFrontend.Java

/-- What a literal stands for. Floating-point values are given by their bits. -/
inductive LiteralValue where
  | int (value : Int32)
  | long (value : Int64)
  | float (bits : UInt32)
  | double (bits : UInt64)
  | char (value : Char)
  | string (value : String)
  | boolean (value : Bool)
  | null
deriving DecidableEq, Repr

namespace LiteralValue

/-- The kind of the tokens that write such a value. -/
def kind : LiteralValue → Kind
  | .int _ => .intLiteral
  | .long _ => .longLiteral
  | .float _ => .floatLiteral
  | .double _ => .doubleLiteral
  | .char _ => .charLiteral
  | .string _ => .stringLiteral
  | .boolean true => .trueLiteral
  | .boolean false => .falseLiteral
  | .null => .nullLiteral

/-- What a token stands for if it is a literal: its decoded value, or else the word it is. -/
def ofToken? (token : Token) : Option LiteralValue :=
  match token.value with
  | .int value => some (.int value)
  | .long value => some (.long value)
  | .float bits => some (.float bits)
  | .double bits => some (.double bits)
  | .char value => some (.char value)
  | .string value => some (.string value)
  | .none | .error _ =>
    match token.kind with
    | .trueLiteral => some (.boolean true)
    | .falseLiteral => some (.boolean false)
    | .nullLiteral => some .null
    | _ => none

end LiteralValue

/-- A literal and where it is written. -/
structure Literal where
  value : LiteralValue
  position : Position
deriving DecidableEq, Repr

end JavaFrontend.Java
