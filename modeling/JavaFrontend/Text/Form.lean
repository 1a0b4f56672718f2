import JavaFrontend.Text.Position
import JavaFrontend.Token.Kind

/-!
Forms: text with a structure of its own. A form is a word, a head and its parts in parentheses, or
items in brackets, with one space between neighbours. What kinds of token are
called is left open until a form is written down.
-/

namespace JavaFrontend

/-- A text with a structure. -/
inductive Form where
  | word (text : String)
  | kind (kind : Kind)
  | kindAt (kind : Kind) (position : Position)
  /-- A head and its parts in parentheses. -/
  | call (head : String) (parts : List Form)
  /-- Items in brackets. -/
  | items (parts : List Form)

namespace Form

/-- What stands for a part that is left out. -/
def absent : Form := .word "-"

def ofOption (form : Option Form) : Form := form.getD absent

def yesNo (value : Bool) : Form := .word (if value then "yes" else "no")

def number (value : Nat) : Form := .word (toString value)

/-- The head of a form in parentheses. -/
def head? : Form → Option String
  | .call head _ => some head
  | _ => none

mutual

/-- The form as text, given what the kinds are called. -/
def render (kindName : Kind → String) : Form → String
  | .word text => text
  | .kind k => kindName k
  | .kindAt k position => kindName k ++ "@" ++ toString position
  | .call head parts => "(" ++ " ".intercalate (head :: renderAll kindName parts) ++ ")"
  | .items parts => "[" ++ " ".intercalate (renderAll kindName parts) ++ "]"

def renderAll (kindName : Kind → String) : List Form → List String
  | [] => []
  | part :: rest => part.render kindName :: renderAll kindName rest

end

/-! ### Words for values -/

/-- The lower-case hexadecimal digits of a number, with zeros in front up to the width. -/
def hexDigits (width value : Nat) : String :=
  let digits := Nat.toDigits 16 value
  String.ofList (List.replicate (width - digits.length) '0' ++ digits)

/-- A character as it stands between double quotes. -/
def quotedChar (c : Char) : String :=
  if c = '"' then "\\\""
  else if c = '\\' then "\\\\"
  else if c = '\x08' then "\\b"
  else if c = '\x0c' then "\\f"
  else if c = '\n' then "\\n"
  else if c = '\r' then "\\r"
  else if c = '\t' then "\\t"
  else if c.toNat < 32 then "\\u" ++ hexDigits 4 c.toNat
  else String.singleton c

/-- A text in double quotes, with escapes for quotes, backslashes and control characters. -/
def quoted (text : String) : Form :=
  .word ("\"" ++ String.join (text.toList.map quotedChar) ++ "\"")

/-- Bits as hexadecimal digits. -/
def bits (width value : Nat) : Form := .word ("0x" ++ hexDigits width value)

end Form

/-- A position as a part of a form. -/
def Position.form (position : Position) : Form := .word ("@" ++ toString position)

end JavaFrontend
