/-!
Digits and the numbers they write, in any radix up to sixteen.
-/

namespace JavaFrontend.Digits

/-- What the character is worth as a digit of the radix: `0` to `9`, then `a` to `f` in either
case. -/
def value? (radix : Nat) (c : Char) : Option Nat :=
  let worth :=
    if '0' ≤ c ∧ c ≤ '9' then some (c.toNat - '0'.toNat)
    else if 'a' ≤ c ∧ c ≤ 'f' then some (c.toNat - 'a'.toNat + 10)
    else if 'A' ≤ c ∧ c ≤ 'F' then some (c.toNat - 'A'.toNat + 10)
    else none
  worth.filter (· < radix)

def isDigit (radix : Nat) (c : Char) : Bool := (value? radix c).isSome

/-- The number written by the digits, most significant first. Characters that are no digits of the
radix, such as the separator `_`, count for nothing. -/
def number (radix : Nat) (digits : List Char) : Nat :=
  (digits.filterMap (value? radix)).foldl (fun n digit => n * radix + digit) 0

end JavaFrontend.Digits
