import JavaFrontend.Number.Binary
import JavaFrontend.Number.Digits
import JavaFrontend.Token.Lexeme.Basic

/-!
Numeric literals. Underscores may stand among the digits. A leading zero makes a literal octal
unless a fraction, an exponent or a suffix makes it a floating-point number, so all digits are read
before that is decided.
-/

namespace JavaFrontend.Lexeme

open Digits

/-- The run of digits and underscores at the head of the text. -/
def digitRun (radix : Nat) (text : List Char) : List Char :=
  text.takeWhile fun c => c == '_' || isDigit radix c

def endsInSeparator (digits : List Char) : Bool := digits.getLast? == some '_'

/-- The greatest value an integer literal may have. A decimal one may be two to the 31 or 63, so
that the least value can be written with a minus sign; other radices fill the word. -/
def greatestInteger (radix bits : Nat) : Nat :=
  if radix = 10 then Nat.pow 2 (bits - 1) else Nat.pow 2 bits - 1

/-- An integer literal with the given digits, after which `text` follows. -/
def integer (extra radix : Nat) (digits text : List Char) : Lexeme :=
  if endsInSeparator digits then fault extra (.malformedNumber .separatorAtEnd)
  else
    let value := number radix digits
    if text.head? == some 'l' || text.head? == some 'L' then
      if value ≤ greatestInteger radix 64 then
        literal (extra + 1) .longLiteral (.long (Int64.ofNat value))
      else fault (extra + 1) (.tooLarge .long)
    else if value ≤ greatestInteger radix 32 then
      literal extra .intLiteral (.int (Int32.ofNat value))
    else fault extra (.tooLarge .int)

/-- An integer literal whose digits follow a zero and the letter of the radix. -/
def prefixedInteger (radix : Nat) (text : List Char) : Lexeme :=
  let digits := digitRun radix text
  let extra := 1 + digits.length
  if digits.isEmpty then fault extra (.malformedNumber .noDigits)
  else if digits.head? == some '_' then fault extra (.malformedNumber .separatorAfterRadix)
  else integer extra radix digits (text.drop digits.length)

/-- A floating-point literal with the given digits before and after the point and the given
exponent, after which `text` follows: a suffix selects the type. -/
def floating (extra : Nat) (whole fraction : List Char) (exponent : Int) (text : List Char) :
    Lexeme :=
  let mantissa := number 10 (whole ++ fraction)
  let places := (fraction.filter (isDigit 10)).length
  let scale := exponent - places
  match text.head? with
  | some 'f' | some 'F' =>
    match BinaryFormat.single.ofDecimal? mantissa scale with
    | some bits => literal (extra + 1) .floatLiteral (.float (UInt32.ofNat bits))
    | none => fault (extra + 1) (.tooLarge .float)
  | suffix =>
    let extra := if suffix == some 'd' || suffix == some 'D' then extra + 1 else extra
    match BinaryFormat.double.ofDecimal? mantissa scale with
    | some bits => literal extra .doubleLiteral (.double (UInt64.ofNat bits))
    | none => fault extra (.tooLarge .double)

/-- A floating-point literal whose digits are read, up to its exponent. -/
def exponentPart (extra : Nat) (whole fraction text : List Char) : Lexeme :=
  match text with
  | 'e' :: rest | 'E' :: rest =>
    let sign := rest.take (if rest.head? == some '+' || rest.head? == some '-' then 1 else 0)
    let digits := digitRun 10 (rest.drop sign.length)
    let extra := extra + 1 + sign.length + digits.length
    if digits.isEmpty then fault extra (.malformedNumber .emptyExponent)
    else if endsInSeparator digits then fault extra (.malformedNumber .separatorAtEnd)
    else
      let magnitude : Int := number 10 digits
      let exponent := if sign == ['-'] then -magnitude else magnitude
      floating extra whole fraction exponent (rest.drop (sign.length + digits.length))
  | _ => floating extra whole fraction 0 text

/-- A floating-point literal whose point is read. -/
def fractionPart (extra : Nat) (whole text : List Char) : Lexeme :=
  let digits := digitRun 10 text
  let extra := extra + digits.length
  if endsInSeparator digits then fault extra (.malformedNumber .separatorAtEnd)
  else exponentPart extra whole digits (text.drop digits.length)

/-- Whether the text makes the digits before it those of a floating-point number: a point that does
not begin an ellipsis, an exponent or a suffix. -/
def startsFloating : List Char → Bool
  | '.' :: rest => rest.head? != some '.'
  | c :: _ => c ∈ ['e', 'E', 'f', 'F', 'd', 'D']
  | [] => false

/-- A literal that starts with the digit `first` and has no radix letter. -/
def decimalOrOctal (first : Char) (text : List Char) : Lexeme :=
  let more := digitRun 10 text
  let digits := first :: more
  let extra := more.length
  let rest := text.drop more.length
  if startsFloating rest then
    if endsInSeparator digits then fault extra (.malformedNumber .separatorAtEnd)
    else
      match rest with
      | '.' :: rest => fractionPart (extra + 1) digits rest
      | rest => exponentPart extra digits [] rest
  else if first = '0' && !more.isEmpty then
    if more.all fun c => c == '_' || isDigit 8 c then integer extra 8 more rest
    else fault extra (.malformedNumber .notOctal)
  else integer extra 10 digits rest

/-- The numeric literal that starts with the digit `first`. -/
def numeric (first : Char) (text : List Char) : Lexeme :=
  match first, text with
  | '0', 'x' :: rest | '0', 'X' :: rest => prefixedInteger 16 rest
  | '0', 'b' :: rest | '0', 'B' :: rest => prefixedInteger 2 rest
  | _, _ => decimalOrOctal first text

end JavaFrontend.Lexeme
