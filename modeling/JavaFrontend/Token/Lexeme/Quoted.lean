import JavaFrontend.Number.Digits
import JavaFrontend.Token.Lexeme.Basic

/-!
Character and string literals. A faulty literal ends at the fault, with the faulty character, and
the text after it is scanned afresh.
-/

namespace JavaFrontend.Lexeme

open Digits

/-- What a single-letter escape stands for. -/
def letterEscape? : Char → Option Char
  | 'b' => some '\x08'
  | 't' => some '\t'
  | 'n' => some '\n'
  | 'f' => some '\x0c'
  | 'r' => some '\r'
  | '"' => some '"'
  | '\'' => some '\''
  | '\\' => some '\\'
  | _ => none

/-- The character with the given code point, unless it is half of a surrogate pair or no code
point at all. -/
def charOf? (code : Nat) : Option Char :=
  if h : code.isValidChar then some (Char.ofNatAux code h) else none

/-- The escape `\u`: any number of further letters `u`, then four hexadecimal digits. -/
def unicodeEscape (text : List Char) : Nat × Except LexError Char :=
  let marks := (text.takeWhile (· == 'u')).length
  let four := (text.drop marks).take 4
  let digits := four.takeWhile (isDigit 16)
  if digits.length = 4 then
    (marks + 4, (charOf? (number 16 digits)).elim (.error (.illegalEscape 'u')) .ok)
  else (marks + min (digits.length + 1) four.length, .error (.illegalEscape 'u'))

/-- What the escape behind a backslash stands for, and how many characters it takes. Octal escapes
have up to three digits and end at `\377`. -/
def escape : List Char → Nat × Except LexError Char
  | [] => (0, .error .unterminatedString)
  | c :: rest =>
    match letterEscape? c with
    | some decoded => (1, .ok decoded)
    | none =>
      if isDigit 8 c then
        let more := (rest.take (if c ≤ '3' then 2 else 1)).takeWhile (isDigit 8)
        (1 + more.length, .ok (Char.ofNat (number 8 (c :: more))))
      else if c = 'u' then
        let (length, decoded) := unicodeEscape rest
        (1 + length, decoded)
      else (1, .error (.illegalEscape c))

def isLineEnd (c : Char) : Bool := c == '\n' || c == '\r'

/-- A character literal whose only character is read: its end. A literal with more characters
extends to the next quote of the line, if there is one. -/
def charEnd (extra : Nat) (value : Char) (text : List Char) : Lexeme :=
  if text.head? == some '\'' then literal (extra + 1) .charLiteral (.char value)
  else
    let skipped := (text.takeWhile fun c => c != '\'' && !isLineEnd c).length
    if (text.drop skipped).head? == some '\'' then fault (extra + skipped + 1) .overlongChar
    else fault (extra + skipped) .unterminatedChar

/-- The character literal whose opening quote stands before the text. -/
def charLiteral : List Char → Lexeme
  | [] => fault 0 .unterminatedChar
  | c :: rest =>
    if isLineEnd c then fault 1 .unterminatedChar
    else if c = '\'' then fault 1 .emptyChar
    else if c = '\\' then
      match escape rest with
      | (length, .ok value) => charEnd (1 + length) value (rest.drop length)
      | (length, .error reason) => fault (1 + length) reason
    else charEnd 1 c rest

/-- The rest of a string literal of which `extra` characters are read, standing for `value` in
reverse. -/
def stringRest (extra : Nat) (value : List Char) : List Char → Lexeme
  | [] => fault extra .unterminatedString
  | c :: rest =>
    if isLineEnd c then fault (extra + 1) .unterminatedString
    else if c = '"' then
      literal (extra + 1) .stringLiteral (.string (String.ofList value.reverse))
    else if c = '\\' then
      match escape rest with
      | (length, .ok decoded) =>
        stringRest (extra + 1 + length) (decoded :: value) (rest.drop length)
      | (length, .error reason) => fault (extra + 1 + length) reason
    else stringRest (extra + 1) (c :: value) rest
termination_by text => text.length

/-- The string literal whose opening quote stands before the text. -/
def stringLiteral (text : List Char) : Lexeme := stringRest 0 [] text

end JavaFrontend.Lexeme
