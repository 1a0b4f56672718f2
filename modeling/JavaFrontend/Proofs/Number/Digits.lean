import JavaFrontend.Number.Digits
import Mathlib.Data.List.Forall2
import Mathlib.Data.Nat.Digits.Defs

/-!
Digits as they are written. A digit is written as a character of its own, a letter in either case,
and what is read of such characters is the number that the digits denote, underscores among them
or not.
-/

namespace JavaFrontend.Digits

variable {radix digit : Nat} {digits : List Nat} {c : Char} {text : List Char}

/-- The characters that the digit is written as. -/
def spellings (digit : Nat) : List Char := [digit.digitChar, digit.digitChar.toUpper]

/-- The characters write the digits, which are digits of the radix. -/
def Writes (radix : Nat) : List Char → List Nat → Prop :=
  List.Forall₂ fun c digit => digit < radix ∧ c ∈ spellings digit

/-- A digit is worth the same in all radices that it is a digit of. -/
theorem value?_of_lt {other : Nat} (value : value? other c = some digit) (small : digit < radix) :
    value? radix c = some digit := by
  unfold value? at value ⊢
  dsimp only at value ⊢
  obtain ⟨worth, -⟩ := Option.filter_eq_some_iff.mp value
  rw [worth]
  exact Option.filter_eq_some_iff.mpr ⟨rfl, by simpa using small⟩

theorem isDigit_mono {larger : Nat} (le : radix ≤ larger) (isDigit : isDigit radix c) :
    Digits.isDigit larger c := by
  obtain ⟨digit, value⟩ := Option.isSome_iff_exists.mp isDigit
  have small : digit < radix := by
    unfold value? at value
    simpa using (Option.filter_eq_some_iff.mp value).2
  rw [Digits.isDigit, value?_of_lt value (Nat.lt_of_lt_of_le small le)]
  rfl

theorem value?_of_spelling (few : radix ≤ 16) (small : digit < radix)
    (spelling : c ∈ spellings digit) : value? radix c = some digit := by
  have all : (List.range 16).all fun digit =>
      (spellings digit).all fun c => value? 16 c == some digit := by decide
  have digits := List.all_eq_true.mp all digit (List.mem_range.mpr (Nat.lt_of_lt_of_le small few))
  exact value?_of_lt (eq_of_beq (List.all_eq_true.mp digits c spelling)) small

theorem isDigit_of_spelling (few : radix ≤ 16) (small : digit < radix)
    (spelling : c ∈ spellings digit) : isDigit radix c := by
  rw [isDigit, value?_of_spelling few small spelling]
  rfl

theorem values_of_writes (few : radix ≤ 16) (writes : Writes radix text digits) :
    text.filterMap (value? radix) = digits := by
  induction writes with
  | nil => rfl
  | cons spelled _ ih => rw [List.filterMap_cons_some (value?_of_spelling few spelled.1 spelled.2), ih]

theorem isDigit_of_writes (few : radix ≤ 16) (writes : Writes radix text digits) :
    ∀ c ∈ text, isDigit radix c := by
  induction writes with
  | nil => simp
  | cons spelled _ ih => exact List.forall_mem_cons.mpr ⟨isDigit_of_spelling few spelled.1 spelled.2, ih⟩

/-- No digit ends a line. -/
theorem inLine_of_isDigit (few : radix ≤ 16) (digit : isDigit radix c) : c ≠ '\n' ∧ c ≠ '\r' := by
  constructor <;> rintro rfl <;> cases isDigit_mono few digit

theorem value?_separator (radix : Nat) : value? radix '_' = none := rfl

/-- Underscores count for nothing. -/
theorem values_filter (radix : Nat) (text : List Char) :
    (text.filter (· != '_')).filterMap (value? radix) = text.filterMap (value? radix) := by
  induction text with
  | nil => rfl
  | cons c text ih =>
    by_cases separator : c = '_'
    · subst separator
      rw [List.filter_cons_of_neg (by simp), ih, List.filterMap_cons_none (value?_separator radix)]
    · rw [List.filter_cons_of_pos (by simpa using separator), List.filterMap_cons,
        List.filterMap_cons, ih]

theorem foldl_eq_ofDigits (radix : Nat) (digits : List Nat) :
    digits.foldl (fun n digit => n * radix + digit) 0 = Nat.ofDigits radix digits.reverse := by
  rw [Nat.ofDigits_eq_foldr, List.foldr_reverse]
  congr
  funext n digit
  rw [Nat.cast_id, Nat.mul_comm, Nat.add_comm]

/-- What is read of characters is the number that the digits denote which they write. -/
theorem number_of_writes (few : radix ≤ 16) (writes : Writes radix text digits) :
    number radix text = Nat.ofDigits radix digits.reverse := by
  rw [number, values_of_writes few writes, foldl_eq_ofDigits]

theorem number_of_filter (few : radix ≤ 16)
    (writes : Writes radix (text.filter (· != '_')) digits) :
    number radix text = Nat.ofDigits radix digits.reverse := by
  rw [← number_of_writes few writes, number, number, values_filter]

end JavaFrontend.Digits
