/-!
Why a stretch of source text is no token.
-/

namespace JavaFrontend

/-- What is wrong with the form of a number. -/
inductive NumberFault where
  | noDigits | separatorAfterRadix | separatorAtEnd | notOctal | emptyExponent
deriving DecidableEq, Repr

namespace NumberFault

def message : NumberFault → String
  | .noDigits => "no digits"
  | .separatorAfterRadix => "'_' directly after the radix prefix"
  | .separatorAtEnd => "'_' at the end of a number"
  | .notOctal => "digit out of range for an octal number"
  | .emptyExponent => "empty exponent"

end NumberFault

/-- The types a numeric literal may have. -/
inductive NumericType where
  | int | long | float | double
deriving DecidableEq, Repr

namespace NumericType

def display : NumericType → String
  | .int => "Integer"
  | .long => "Long"
  | .float => "Float"
  | .double => "Double"

end NumericType

/-- Why a stretch of source text is no token. -/
inductive LexError where
  | unexpectedChar (c : Char)
  | unterminatedComment
  | unterminatedString
  | unterminatedChar
  | illegalEscape (c : Char)
  | emptyChar
  | overlongChar
  | malformedNumber (fault : NumberFault)
  | tooLarge (type : NumericType)
deriving DecidableEq, Repr

namespace LexError

def message : LexError → String
  | .unexpectedChar c => "Unexpected character: '" ++ String.singleton c ++ "'"
  | .unterminatedComment => "Reached end of input while inside comment"
  | .unterminatedString => "String literal not closed"
  | .unterminatedChar => "Character literal not closed"
  | .illegalEscape c => "Illegal escape sequence: \\" ++ String.singleton c
  | .emptyChar => "Invalid character literal: empty character literal"
  | .overlongChar => "Invalid character literal: more than one character"
  | .malformedNumber fault => "Invalid number format: " ++ fault.message
  | .tooLarge type => type.display ++ " literal too large"

end LexError

end JavaFrontend
