/-!
Rounding of decimal numbers to binary floating point. The decimal is taken exactly, as a quotient
of natural numbers, and rounded once, a tie going to the even neighbour.
-/

namespace JavaFrontend

/-- A binary interchange format: how many bits hold the exponent and the fraction. -/
structure BinaryFormat where
  exponentBits : Nat
  fractionBits : Nat
deriving DecidableEq, Repr

namespace BinaryFormat

def single : BinaryFormat := ⟨8, 23⟩

def double : BinaryFormat := ⟨11, 52⟩

/-- Every finite magnitude lies below two to this power. -/
def exponentLimit (format : BinaryFormat) : Nat := Nat.pow 2 (format.exponentBits - 1)

/-- The smallest positive magnitude is two to this power. -/
def leastExponent (format : BinaryFormat) : Int :=
  2 - (format.exponentLimit : Int) - format.fractionBits

/-- The bits of infinity: all exponent bits set, no fraction. -/
def infinity (format : BinaryFormat) : Nat :=
  (Nat.pow 2 format.exponentBits - 1) * Nat.pow 2 format.fractionBits

/-- The integer nearest to `n / d`, the even one of two that are equally near. -/
def roundHalfEven (n d : Nat) : Nat :=
  let quotient := n / d
  match compare (2 * (n % d)) d with
  | .lt => quotient
  | .gt => quotient + 1
  | .eq => quotient + quotient % 2

/-- The exponent of the greatest power of two that is at most `n / d`, for positive `n` and `d`. -/
def quotientLog2 (n d : Nat) : Int :=
  let estimate : Int := (Nat.log2 n : Int) - Nat.log2 d
  if d * Nat.pow 2 estimate.toNat ≤ n * Nat.pow 2 (-estimate).toNat then estimate
  else estimate - 1

/-- The bits of the number of the format nearest to `n / d`, which need not be below `infinity`.

The unit of the last place is two to the `unit`. Its distance from the least exponent is the
exponent field less one, and the rounded significand brings that one along as its leading bit. -/
def bitsOfQuotient (format : BinaryFormat) (n d : Nat) : Nat :=
  let unit := max (quotientLog2 n d - format.fractionBits) format.leastExponent
  let significand :=
    roundHalfEven (n * Nat.pow 2 (-unit).toNat) (d * Nat.pow 2 unit.toNat)
  (unit - format.leastExponent).toNat * Nat.pow 2 format.fractionBits + significand

/-- The bits of `mantissa · 10 ^ exponent`, or nothing if it rounds to infinity.

Exponents so large or so small that the outcome is plain are settled first: ten to a power is at
least two to that power, and a tenth is less than an eighth. -/
def ofDecimal? (format : BinaryFormat) (mantissa : Nat) (exponent : Int) : Option Nat :=
  if mantissa = 0 then some 0
  else if (format.exponentLimit : Int) ≤ exponent then none
  else if (Nat.log2 mantissa : Int) + 1 + 3 * exponent < format.leastExponent then some 0
  else
    let bits :=
      format.bitsOfQuotient (mantissa * Nat.pow 10 exponent.toNat) (Nat.pow 10 (-exponent).toNat)
    if bits < format.infinity then some bits else none

end BinaryFormat

end JavaFrontend
