/-!
Sets of characters given as lists of code point ranges, both ends included.
-/

namespace JavaFrontend.Unicode

/-- The first and the last code point of a run. -/
abbrev Range := Nat × Nat

def Range.contains (range : Range) (c : Char) : Bool :=
  range.1 ≤ c.toNat && c.toNat ≤ range.2

/-- Whether one of the ranges holds the character. -/
def inRanges (ranges : List Range) (c : Char) : Bool := ranges.any (·.contains c)

end JavaFrontend.Unicode
