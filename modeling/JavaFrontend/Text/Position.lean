/-!
Places in a source text. A line feed, a carriage return and a carriage return directly followed by
a line feed each end one line; every other character takes one column.
-/

namespace JavaFrontend

/-- A line and a column, both counted from one. The default value `0:0` is no place at all. -/
structure Position where
  line : Nat := 0
  column : Nat := 0
deriving DecidableEq, Repr, Inhabited

namespace Position

/-- The place of the first character. -/
def start : Position := ⟨1, 1⟩

/-- The place `columns` characters further on the same line. -/
def shift (position : Position) (columns : Nat) : Position :=
  ⟨position.line, position.column + columns⟩

def nextLine (position : Position) : Position := ⟨position.line + 1, 1⟩

/-- The place after the character `c`, given the character behind it: a carriage return leaves the
line to a line feed behind it. -/
def after (position : Position) (c : Char) (next : Option Char) : Position :=
  if c = '\n' then position.nextLine
  else if c = '\r' && next != some '\n' then position.nextLine
  else position.shift 1

/-- The place after the text `passed`, given the text that follows it. -/
def advance (position : Position) : List Char → List Char → Position
  | [], _ => position
  | c :: passed, following =>
    advance (position.after c (passed.head?.or following.head?)) passed following

/-- Earlier lines come first, then earlier columns. -/
protected def compare (a b : Position) : Ordering :=
  (compare a.line b.line).then (compare a.column b.column)

instance : ToString Position where
  toString position := toString position.line ++ ":" ++ toString position.column

end Position

end JavaFrontend
