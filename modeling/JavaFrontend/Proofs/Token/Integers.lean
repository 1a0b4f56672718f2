import JavaFrontend.Proofs.Number.Digits
import JavaFrontend.Proofs.Token.Context
import JavaFrontend.Proofs.Token.Locality.Numbers

/-!
Integer literals. A literal of any length in any of the four radices is read as the number that its
digits denote, in two's complement, or it is rejected as too large; which of both depends on the
number and on the suffix (`tokens_of_integer`).
-/

namespace JavaFrontend

namespace Digits

/-- The text writes the digits, with underscores between them at most. -/
structure Spells (radix : Nat) (text : List Char) (digits : List Nat) : Prop where
  written : Writes radix (text.filter (· != '_')) digits
  filled : digits ≠ []
  first : text.head? ≠ some '_'
  last : text.getLast? ≠ some '_'

/-- The text is an integer literal without suffix in the radix: in radix ten it has no leading zero
unless it is zero alone, and in the other radices there are a zero and a letter in front of the
digits, or a zero alone. -/
inductive IsInteger : Nat → List Char → List Nat → Prop where
  | decimal {text : List Char} {digits : List Nat} (spells : Spells 10 text digits)
      (leading : digits = [0] ∨ digits.head? ≠ some 0) : IsInteger 10 text digits
  | octal {text : List Char} {digits : List Nat} (spells : Spells 8 ('0' :: text) (0 :: digits))
      (more : digits ≠ []) : IsInteger 8 ('0' :: text) digits
  | hexadecimal {text : List Char} {digits : List Nat} {letter : Char} (isLetter : letter ∈ ['x', 'X'])
      (spells : Spells 16 text digits) : IsInteger 16 ('0' :: letter :: text) digits
  | binary {text : List Char} {digits : List Nat} {letter : Char} (isLetter : letter ∈ ['b', 'B'])
      (spells : Spells 2 text digits) : IsInteger 2 ('0' :: letter :: text) digits

/-- Whether the number may be written in so many bits: in radix ten up to the number whose negation
is the least value, in other radices as all bits. -/
def fits (radix bits n : Nat) : Bool := if radix = 10 then n ≤ 2 ^ (bits - 1) else n < 2 ^ bits

/-- The value of the bits that write the number, the first of them being the sign. -/
def twosComplement (bits n : Nat) : Int := if n < 2 ^ (bits - 1) then n else n - 2 ^ bits

end Digits

namespace Lexeme

open Digits

variable {radix extra n : Nat} {text more rest written : List Char} {digits : List Nat} {c : Char}

/-! ### The digits of a literal -/

theorem spelled_of_writes (few : radix ≤ 16)
    (writes : Writes radix (text.filter (· != '_')) digits) :
    ∀ c ∈ text, c = '_' ∨ isDigit radix c := by
  intro c among
  by_cases separator : c = '_'
  · exact .inl separator
  · exact .inr (isDigit_of_writes few writes c
      (List.mem_filter.mpr ⟨among, by simpa using separator⟩))

theorem endsInSeparator_of_spells (spells : Spells radix text digits) :
    endsInSeparator text = false := by
  simpa [endsInSeparator] using spells.last

/-- A literal begins with a digit. -/
theorem exists_first_digit (spells : Spells radix text digits) : ∃ c more digit others,
    text = c :: more ∧ digits = digit :: others ∧ digit < radix ∧ c ∈ spellings digit ∧
      Writes radix (more.filter (· != '_')) others := by
  obtain ⟨writes, filled, first, -⟩ := spells
  cases text with
  | nil => exact absurd (List.forall₂_nil_left_iff.mp writes) filled
  | cons c more =>
    rw [List.filter_cons_of_pos (by simpa using first)] at writes
    cases writes with
    | cons spelled others => exact ⟨c, more, _, _, rfl, rfl, spelled.1, spelled.2, others⟩

/-- All digits are taken. -/
theorem digitRun_ending (spelled : ∀ c ∈ text, c = '_' ∨ isDigit radix c)
    (ending : rest ∈ suffixes) : digitRun radix (text ++ rest) = text := by
  have stops : rest.takeWhile (fun c => c == '_' || isDigit radix c) = [] := by
    simp only [suffixes, List.mem_cons, List.not_mem_nil, or_false] at ending
    rcases ending with rfl | rfl | rfl <;> rfl
  rw [digitRun, List.takeWhile_append_of_pos (by simpa using spelled), stops, List.append_nil]

/-- Behind a radix letter. -/
theorem prefixedInteger_ending (few : radix ≤ 16) (spells : Spells radix text digits)
    (ending : rest ∈ suffixes) :
    prefixedInteger radix (text ++ rest) = integer (1 + text.length) radix text rest := by
  obtain ⟨c, more, digit, others, rfl, rfl, -⟩ := exists_first_digit spells
  have first : ((c :: more).head? == some '_') = false := by simpa using spells.first
  rw [prefixedInteger_digits (digitRun_ending (spelled_of_writes few spells.written) ending)]
  simp only [List.isEmpty_cons, first, Bool.false_eq_true, if_false]

/-- Without a radix letter, and with nothing of a floating-point number. -/
theorem numeric_ending (spelled : ∀ c ∈ text, c = '_' ∨ isDigit 10 c) (ending : rest ∈ suffixes)
    (first : Char) : numeric first (text ++ rest) =
      if first = '0' && !text.isEmpty then
        if text.all fun c => c == '_' || isDigit 8 c then integer text.length 8 text rest
        else fault text.length (.malformedNumber .notOctal)
      else integer text.length 10 (first :: text) rest := by
  have whole : startsFloating rest = false := by
    simp only [suffixes, List.mem_cons, List.not_mem_nil, or_false] at ending
    rcases ending with rfl | rfl | rfl <;> rfl
  have plain : ∀ c ∈ (text ++ rest).head?, c ∉ ['x', 'X', 'b', 'B'] := by
    intro c head letter
    have all : ['x', 'X', 'b', 'B'].all fun c => c != '_' && !isDigit 10 c &&
        suffixes.all fun rest => !rest.contains c := by decide
    obtain ⟨⟨separator, digit⟩, apart⟩ := by simpa using List.all_eq_true.mp all c letter
    rcases List.mem_append.mp (List.mem_of_head? head) with inside | behind
    · rcases spelled c inside with same | isDigit
      · exact separator same
      · rw [isDigit] at digit
        cases digit
    · exact apart rest ending behind
  rw [numeric_plain fun _ => plain, decimalOrOctal, digitRun_ending spelled ending]
  simp only [List.drop_left, whole, Bool.false_eq_true, if_false]

/-- The digits behind the zero of an octal literal. -/
theorem octal_of_spells (spells : Spells 8 ('0' :: text) (0 :: digits)) (more : digits ≠ []) :
    Writes 8 (text.filter (· != '_')) digits ∧ text ≠ [] ∧ endsInSeparator text = false := by
  obtain ⟨_, _, _, _, same, others, -, -, writes⟩ := exists_first_digit spells
  obtain ⟨rfl, rfl⟩ := List.cons.inj same
  obtain ⟨rfl, rfl⟩ := List.cons.inj others
  cases text with
  | nil => exact absurd (List.forall₂_nil_left_iff.mp writes) more
  | cons c text =>
    refine ⟨writes, List.cons_ne_nil _ _, ?_⟩
    have last := endsInSeparator_of_spells spells
    rwa [endsInSeparator, List.getLast?_cons_cons] at last

/-- A decimal literal of more than one digit does not begin with a zero. -/
theorem not_octal (spells : Spells 10 (c :: text) digits)
    (leading : digits = [0] ∨ digits.head? ≠ some 0) :
    (decide (c = '0') && !text.isEmpty) = false := by
  refine Bool.eq_false_iff.mpr fun octal => ?_
  obtain ⟨rfl, more⟩ : c = '0' ∧ text ≠ [] := by simpa using octal
  obtain ⟨_, _, digit, others, same, rfl, small, spelling, writes⟩ := exists_first_digit spells
  obtain ⟨rfl, rfl⟩ := List.cons.inj same
  obtain rfl : 0 = digit := Option.some.inj (value?_of_spelling (by decide) small spelling)
  obtain rfl : others = [] := by simpa using leading
  -- Then there is nothing but underscores behind the zero, and the last of them is at the end.
  have separators : ∀ c ∈ text, c = '_' := by
    simpa using List.filter_eq_nil_iff.mp (List.forall₂_nil_right_iff.mp writes)
  refine spells.last ?_
  rw [List.getLast?_cons_of_ne_nil more, List.getLast?_eq_some_getLast more,
    separators _ (List.getLast_mem more)]

/-- The text is one that begins with a digit, and with any suffix behind it the scanner takes for
an integer of the digits. -/
def ReadsAs (radix : Nat) (text : List Char) (digits : List Nat) : Prop :=
  ∃ first more written, text = first :: more ∧ isDigit 10 first ∧
    (∀ c ∈ text, c ≠ '\n' ∧ c ≠ '\r') ∧ endsInSeparator written = false ∧
      number radix written = Nat.ofDigits radix digits.reverse ∧
        ∀ rest ∈ suffixes, numeric first (more ++ rest) = integer more.length radix written rest

theorem inLine_of_spelled (few : radix ≤ 16) (spelled : ∀ c ∈ text, c = '_' ∨ isDigit radix c) :
    ∀ c ∈ text, c ≠ '\n' ∧ c ≠ '\r' := by
  intro c among
  rcases spelled c among with rfl | digit
  · decide
  · exact inLine_of_isDigit few digit

theorem readsAs_prefixed {letter : Char} (few : radix ≤ 16) (spells : Spells radix text digits)
    (isLetter : letter ≠ '\n' ∧ letter ≠ '\r')
    (numbers : ∀ rest, numeric '0' (letter :: rest) = prefixedInteger radix rest) :
    ReadsAs radix ('0' :: letter :: text) digits := by
  have inLine := inLine_of_spelled few (spelled_of_writes few spells.written)
  refine ⟨'0', letter :: text, text, rfl, rfl, ?_, endsInSeparator_of_spells spells,
    number_of_filter few spells.written, fun rest ending => ?_⟩
  · exact List.forall_mem_cons.mpr ⟨by decide, List.forall_mem_cons.mpr ⟨isLetter, inLine⟩⟩
  · rw [List.cons_append, numbers, prefixedInteger_ending few spells ending, List.length_cons,
      Nat.add_comm]

/-- Each literal is read with all of its digits. -/
theorem readsAs_of_isInteger (integral : IsInteger radix text digits) :
    ReadsAs radix text digits := by
  cases integral with
  | hexadecimal isLetter spells =>
    rcases List.mem_pair.mp isLetter with rfl | rfl <;>
      exact readsAs_prefixed (by decide) spells (by decide) fun _ => rfl
  | binary isLetter spells =>
    rcases List.mem_pair.mp isLetter with rfl | rfl <;>
      exact readsAs_prefixed (by decide) spells (by decide) fun _ => rfl
  | @octal text _ spells more =>
    obtain ⟨writes, filled, last⟩ := octal_of_spells spells more
    have octal := spelled_of_writes (by decide) writes
    have spelled : ∀ c ∈ text, c = '_' ∨ isDigit 10 c := fun c among =>
      (octal c among).imp_right (isDigit_mono (by decide))
    refine ⟨'0', text, text, rfl, rfl, ?_, last, number_of_filter (by decide) writes,
      fun rest ending => ?_⟩
    · exact List.forall_mem_cons.mpr ⟨by decide, inLine_of_spelled (by decide) spelled⟩
    · rw [numeric_ending spelled ending, if_pos (by simpa using filled),
        if_pos (by simpa using octal)]
  | decimal spells leading =>
    obtain ⟨c, more, digit, _, rfl, -, small, spelling, -⟩ := exists_first_digit spells
    have spelled := spelled_of_writes (by decide) spells.written
    refine ⟨c, more, c :: more, rfl, isDigit_of_spelling (by decide) small spelling,
      inLine_of_spelled (by decide) spelled, endsInSeparator_of_spells spells,
      number_of_filter (by decide) spells.written, fun rest ending => ?_⟩
    rw [numeric_ending (List.forall_mem_cons.mp spelled).2 ending, not_octal spells leading]
    rfl

/-! ### The value of a literal -/

theorem le_greatestInteger_iff (radix bits n : Nat) :
    n ≤ greatestInteger radix bits ↔ fits radix bits n := by
  have positive : 0 < 2 ^ bits := Nat.two_pow_pos bits
  unfold greatestInteger fits
  split
  · simp
  · simpa using Nat.le_sub_one_iff_lt positive

theorem lt_of_fits {bits : Nat} (some : 0 < bits) (fit : fits radix bits n) : n < 2 ^ bits := by
  unfold fits at fit
  split at fit
  · exact Nat.lt_of_le_of_lt (of_decide_eq_true fit)
      (Nat.pow_lt_pow_right (by decide) (Nat.sub_lt some Nat.one_pos))
  · exact of_decide_eq_true fit

theorem toInt_int32 (small : n < 2 ^ 32) : (Int32.ofNat n).toInt = twosComplement 32 n := by
  rw [Int32.toInt_ofNat', Int.bmod_def, Int32.size, twosComplement]
  split <;> split <;> omega

theorem toInt_int64 (small : n < 2 ^ 64) : (Int64.ofNat n).toInt = twosComplement 64 n := by
  rw [Int64.toInt_ofNat', Int.bmod_def, Int64.size, twosComplement]
  split <;> split <;> omega

/-- Without suffix the digits are those of an integer. -/
theorem integer_nil (whole : endsInSeparator written = false) : integer extra radix written [] =
    if fits radix 32 (number radix written) then
      literal extra .intLiteral (.int (Int32.ofNat (number radix written)))
    else fault extra (.tooLarge .int) := by
  simp [integer, whole, le_greatestInteger_iff]

/-- With the suffix they are those of a long integer. -/
theorem integer_suffix (whole : endsInSeparator written = false) (suffix : c ∈ ['l', 'L']) :
    integer extra radix written [c] =
      if fits radix 64 (number radix written) then
        literal (extra + 1) .longLiteral (.long (Int64.ofNat (number radix written)))
      else fault (extra + 1) (.tooLarge .long) := by
  rcases List.mem_pair.mp suffix with rfl | rfl <;> simp [integer, whole, le_greatestInteger_iff]

end Lexeme

namespace Lexer

open Digits Lexeme

variable {radix n : Nat} {text : List Char} {digits : List Nat} {c : Char}

/-- The text is a single token. -/
def ReadsToken (text : List Char) (kind : Kind) (value : TokenValue) : Prop :=
  (ofString (String.ofList text)).tokens =
    [⟨kind, String.ofList text, .start, value⟩, .endOfInput (Position.start.shift text.length)]

/-- A line that is scanned as a whole. -/
theorem readsToken_of_scan {outcome : Except LexError (Kind × TokenValue)}
    (inLine : ∀ d ∈ c :: text, d ≠ '\n' ∧ d ≠ '\r')
    (scanned : scan false c text = ⟨text.length, outcome⟩) :
    ReadsToken (c :: text) (found outcome).1 (found outcome).2 := by
  have next : next ⟨c :: (text ++ []), .start, false⟩ = _ :=
    next_inLine inLine (by rwa [List.append_nil]) .start
  rw [List.append_nil] at next
  have more : (⟨c :: text, .start, false⟩ : Lexer).text ≠ [] := List.cons_ne_nil _ _
  rw [ReadsToken, ofString, String.toList_ofList, tokens_cons more, next, tokens, if_pos rfl]
  rfl

/-- An integer literal of any length as the source text is one token that covers it: an integer
with the value of the number in 32 bits if the number fits, with a suffix a long integer with its
value in 64 bits if it fits, and else a token that says that the literal is too large. -/
theorem tokens_of_integer (integral : IsInteger radix text digits)
    (denotes : Nat.ofDigits radix digits.reverse = n) :
    (if fits radix 32 n then ∃ value : Int32, value.toInt = twosComplement 32 n ∧
        ReadsToken text .intLiteral (.int value)
      else ReadsToken text .invalid (.error (.tooLarge .int))) ∧
    ∀ suffix ∈ ['l', 'L'],
      if fits radix 64 n then ∃ value : Int64, value.toInt = twosComplement 64 n ∧
        ReadsToken (text ++ [suffix]) .longLiteral (.long value)
      else ReadsToken (text ++ [suffix]) .invalid (.error (.tooLarge .long)) := by
  obtain ⟨first, more, written, rfl, digit, inLine, whole, number, numbers⟩ :=
    readsAs_of_isInteger integral
  rw [denotes] at number
  have scanned (rest : List Char) (ending : rest ∈ suffixes) :
      scan false first (more ++ rest) = integer more.length radix written rest := by
    rw [scan_of_isDigit digit, numbers rest ending]
  constructor
  · have alone := scanned [] (by decide)
    rw [List.append_nil, integer_nil whole, number] at alone
    split
    · next fit =>
      rw [if_pos fit] at alone
      exact ⟨_, toInt_int32 (lt_of_fits (by decide) fit), readsToken_of_scan inLine alone⟩
    · next large =>
      rw [if_neg large] at alone
      exact readsToken_of_scan inLine alone
  · intro suffix isSuffix
    have inLine : ∀ c ∈ first :: (more ++ [suffix]), c ≠ '\n' ∧ c ≠ '\r' := by
      rw [← List.cons_append]
      refine List.forall_mem_append.mpr ⟨inLine, List.forall_mem_singleton.mpr ?_⟩
      rcases List.mem_pair.mp isSuffix with rfl | rfl <;> decide
    have behind := scanned [suffix] (by rcases List.mem_pair.mp isSuffix with rfl | rfl <;> decide)
    rw [integer_suffix whole isSuffix, number,
      show more.length + 1 = (more ++ [suffix]).length by simp] at behind
    split
    · next fit =>
      rw [if_pos fit] at behind
      exact ⟨_, toInt_int64 (lt_of_fits (by decide) fit), readsToken_of_scan inLine behind⟩
    · next large =>
      rw [if_neg large] at behind
      exact readsToken_of_scan inLine behind

/-- The greatest hexadecimal integer is minus one, and a long integer with the suffix. -/
theorem tokens_of_hexadecimal : ∃ (value : Int32) (long : Int64), value.toInt = -1 ∧
    long.toInt = 4294967295 ∧ ReadsToken "0xFFFF_ffff".toList .intLiteral (.int value) ∧
      ReadsToken "0xFFFF_ffffL".toList .longLiteral (.long long) := by
  have large : 15 < 16 ∧ 'F' ∈ spellings 15 := by decide
  have small : 15 < 16 ∧ 'f' ∈ spellings 15 := by decide
  have written : Writes 16 ['F', 'F', 'F', 'F', 'f', 'f', 'f', 'f'] (List.replicate 8 15) :=
    .cons large <| .cons large <| .cons large <| .cons large <| .cons small <| .cons small <|
      .cons small <| .cons small .nil
  have spells : Spells 16 "FFFF_ffff".toList (List.replicate 8 15) :=
    ⟨written, by decide, by decide, by decide⟩
  have integral : IsInteger 16 "0xFFFF_ffff".toList (List.replicate 8 15) :=
    .hexadecimal (List.mem_cons_self (a := 'x')) spells
  obtain ⟨int, long⟩ := tokens_of_integer (n := 4294967295) integral (by decide)
  have long := long 'L' (by decide)
  rw [if_pos (by decide)] at int long
  obtain ⟨value, isValue, reads⟩ := int
  obtain ⟨longValue, isLong, readsLong⟩ := long
  exact ⟨value, longValue, isValue.trans (by decide), isLong.trans (by decide), reads, readsLong⟩

end Lexer

end JavaFrontend
