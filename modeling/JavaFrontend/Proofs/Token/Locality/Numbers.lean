import JavaFrontend.Proofs.Token.Lexeme
import Mathlib.Data.List.TakeWhile

/-!
How far the scanning of numbers looks. What a number is depends on its own text and on the character
behind it, which may be a blank as well; only the digits before two points depend on both of them.
-/

namespace JavaFrontend.Lexeme

open Digits

variable {text rest other : List Char} {c : Char} {p : Char → Bool}

/-! ### What is left behind a token -/

/-- The other text goes on as the rest does, or with a blank. -/
def Next (rest other : List Char) : Prop := other.head? = rest.head? ∨ other.head? = some ' '

theorem Next.append (next : Next rest other) : (taken : List Char) →
    Next (taken ++ rest) (taken ++ other)
  | [] => next
  | _ :: _ => .inl rfl

theorem takeWhile_eq_nil_of_head? (same : other.head? = rest.head?)
    (stops : rest.takeWhile p = []) : other.takeWhile p = [] := by
  cases other with
  | nil => rfl
  | cons c other =>
    obtain ⟨rest, rfl⟩ := List.head?_eq_some_iff.mp same.symm
    cases holds : p c with
    | true => simp [holds] at stops
    | false => simp [holds]

theorem Next.takeWhile_eq_nil (next : Next rest other) (blank : p ' ' = false)
    (stops : rest.takeWhile p = []) : other.takeWhile p = [] := by
  rcases next with same | space
  · exact takeWhile_eq_nil_of_head? same stops
  · obtain ⟨other, rfl⟩ := List.head?_eq_some_iff.mp space
    simp [blank]

theorem takeWhile_run {run : List Char} (all : ∀ c ∈ run, p c)
    (stops : ∀ c ∈ rest.head?, p c = false) : (run ++ rest).takeWhile p = run := by
  rw [List.takeWhile_append_of_pos all]
  cases rest with
  | nil => simp
  | cons c rest => simp [stops c rfl]

/-- A run of characters and what stops it. -/
theorem exists_run (p : Char → Bool) (text : List Char) : ∃ run rest, text = run ++ rest ∧
    (∀ c ∈ run, p c) ∧ rest.takeWhile p = [] ∧
    ∀ other, other.takeWhile p = [] → (run ++ other).takeWhile p = run := by
  have all : ∀ c ∈ text.takeWhile p, p c := fun c member => List.mem_takeWhile_imp member
  refine ⟨text.takeWhile p, text.dropWhile p, List.takeWhile_append_dropWhile.symm, all, ?_,
    fun other stops => ?_⟩
  · cases left : text.dropWhile p with
    | nil => rfl
    | cons c rest =>
      have fails := List.head?_dropWhile_not p text
      rw [left] at fails
      simp_all
  · rw [List.takeWhile_append_of_pos all, stops, List.append_nil]

/-- Scanning takes the beginning of the text beyond the characters that were read, and it would take
just that if the rest were another one that is allowed. -/
def Takes (allowed : List Char → List Char → Prop) (start : Nat) (scan : List Char → Lexeme)
    (text : List Char) : Prop :=
  ∃ taken rest, text = taken ++ rest ∧ (scan text).extra = start + taken.length ∧
    ∀ other, allowed rest other → scan (taken ++ other) = scan text

theorem Takes.le {allowed : List Char → List Char → Prop} {scan : List Char → Lexeme} {start : Nat}
    (takes : Takes allowed start scan text) : start ≤ (scan text).extra := by
  obtain ⟨taken, rest, -, length, -⟩ := takes
  omega

/-- What is scanned behind some characters that are read whatever comes behind them. -/
theorem Takes.behind {scan later : List Char → Lexeme} {start : Nat} (read : List Char)
    (same : ∀ other, Next rest other → scan (read ++ other) = later other)
    (takes : Takes Next (start + read.length) later rest) :
    Takes Next start scan (read ++ rest) := by
  obtain ⟨taken, left, rfl, length, rest⟩ := takes
  have here := same (taken ++ left) (.inl rfl)
  refine ⟨read ++ taken, left, (List.append_assoc ..).symm, ?_, fun other next => ?_⟩
  · rw [here, length, List.length_append, Nat.add_assoc]
  · rw [List.append_assoc, same _ (next.append taken), here, rest other next]

/-! ### Numbers -/

theorem isDigit_blank (radix : Nat) : isDigit radix ' ' = false := rfl

/-- The run of digits at the head of the text, and what stops it. -/
theorem exists_digits (radix : Nat) (text : List Char) : ∃ digits rest, text = digits ++ rest ∧
    (∀ c ∈ digits, c = '_' ∨ isDigit radix c) ∧
      ∀ other, Next rest other → digitRun radix (digits ++ other) = digits := by
  obtain ⟨digits, rest, same, all, stops, run⟩ :=
    exists_run (fun c => c == '_' || isDigit radix c) text
  exact ⟨digits, rest, same, by simpa using all, fun other next => run other
    (next.takeWhile_eq_nil (by rw [isDigit_blank]; rfl) stops)⟩

/-- Nothing more is taken if that depends on the first character that is left alone, a blank doing
no harm. -/
theorem takes_nothing {scan : List Char → Lexeme} {start : Nat}
    (none : (scan text).extra = start)
    (same : ∀ other, Next text other → scan other = scan text) : Takes Next start scan text :=
  ⟨[], text, rfl, none, same⟩

/-- One character is taken if that depends on it alone. -/
theorem takes_first {scan : List Char → Lexeme} {start : Nat}
    (one : (scan (c :: rest)).extra = start + 1)
    (same : ∀ other, scan (c :: other) = scan (c :: rest)) : Takes Next start scan (c :: rest) :=
  ⟨[c], rest, rfl, one, fun other _ => same other⟩

/-- What may stand behind the digits of an integer: nothing, or the letter of long integers. -/
def suffixes : List (List Char) := [[], ['l'], ['L']]

theorem takes_integer (extra radix : Nat) (digits text : List Char) :
    Takes Next extra (integer extra radix digits) text := by
  by_cases broken : endsInSeparator digits
  · exact takes_nothing (by simp [integer, broken, fault]) fun _ _ => by simp [integer, broken]
  by_cases long : text.head? = some 'l' ∨ text.head? = some 'L'
  · obtain ⟨c, rest, rfl, suffix⟩ : ∃ c rest, text = c :: rest ∧ (c = 'l' ∨ c = 'L') := by
      rcases long with same | same <;> obtain ⟨rest, rfl⟩ := List.head?_eq_some_iff.mp same
      · exact ⟨_, rest, rfl, .inl rfl⟩
      · exact ⟨_, rest, rfl, .inr rfl⟩
    refine takes_first ?_ fun _ => rfl
    simp only [integer, broken, List.head?_cons, Option.some_beq_some, beq_iff_eq, suffix,
      Bool.or_eq_true, if_true, if_false, Bool.false_eq_true]
    split <;> rfl
  · have short (other : List Char) (next : Next text other) :
        (other.head? == some 'l' || other.head? == some 'L') = false := by
      rcases next with same | space
      · simpa [same] using long
      · rw [space]
        rfl
    refine takes_nothing ?_ fun other next => ?_
    · simp only [integer, broken, short text (.inl rfl), if_false, Bool.false_eq_true]
      split <;> rfl
    · simp only [integer, short other next, short text (.inl rfl)]

/-- What the first character of the text is not, that of the other text is not either. -/
theorem Next.not_mem {chars : List Char} (next : Next rest other) (blank : ' ' ∉ chars)
    (apart : ∀ c ∈ rest.head?, c ∉ chars) : ∀ c ∈ other.head?, c ∉ chars := by
  intro c first
  rcases next with same | space
  · exact apart c (same ▸ first)
  · rw [space] at first
    cases first
    exact blank

theorem exists_first {chars : List Char} (first : ¬ ∀ c ∈ text.head?, c ∉ chars) :
    ∃ c rest, text = c :: rest ∧ c ∈ chars := by
  cases text with
  | nil => simp at first
  | cons c rest => exact ⟨c, rest, rfl, by simpa using first⟩

theorem floating_plain {extra : Nat} {whole fraction : List Char} {exponent : Int}
    (plain : ∀ c ∈ text.head?, c ∉ ['f', 'F', 'd', 'D']) :
    floating extra whole fraction exponent text = floating extra whole fraction exponent [] := by
  cases text with
  | nil => rfl
  | cons c text =>
    have other := plain c rfl
    simp only [List.mem_cons, List.not_mem_nil, or_false, not_or] at other
    unfold floating
    dsimp only [List.head?_cons, List.head?_nil]
    split
    · next same => exact absurd (Option.some.inj same) other.1
    · next same => exact absurd (Option.some.inj same) other.2.1
    · simp [other]

theorem extra_floating {extra : Nat} {whole fraction : List Char} {exponent : Int}
    (suffix : c ∈ ['f', 'F', 'd', 'D']) :
    (floating extra whole fraction exponent (c :: rest)).extra = extra + 1 := by
  simp only [List.mem_cons, List.not_mem_nil, or_false] at suffix
  unfold floating
  dsimp only
  generalize BinaryFormat.single.ofDecimal? _ _ = single
  generalize BinaryFormat.double.ofDecimal? _ _ = double
  rcases suffix with rfl | rfl | rfl | rfl <;> cases single <;> cases double <;> rfl

theorem takes_floating (extra : Nat) (whole fraction : List Char) (exponent : Int)
    (text : List Char) : Takes Next extra (floating extra whole fraction exponent) text := by
  by_cases plain : ∀ c ∈ text.head?, c ∉ ['f', 'F', 'd', 'D']
  · refine takes_nothing ?_ fun other next => ?_
    · rw [floating_plain plain]
      unfold floating
      dsimp only [List.head?_nil]
      split <;> rfl
    · rw [floating_plain plain, floating_plain (next.not_mem (by decide) plain)]
  · obtain ⟨c, rest, rfl, suffix⟩ := exists_first plain
    exact takes_first (extra_floating suffix) fun _ => rfl

theorem exponentPart_plain {extra : Nat} {whole fraction : List Char}
    (plain : ∀ c ∈ text.head?, c ∉ ['e', 'E']) :
    exponentPart extra whole fraction text = floating extra whole fraction 0 text := by
  unfold exponentPart
  split
  · exact absurd (List.mem_cons_self ..) (plain 'e' rfl)
  · exact absurd (by decide) (plain 'E' rfl)
  · rfl

/-- The sign of an exponent, if there is one. -/
theorem exists_sign (text : List Char) : ∃ sign rest, text = sign ++ rest ∧
    (sign = [] ∨ ∃ mark ∈ ['+', '-'], sign = [mark]) ∧ ∀ other, Next rest other →
      (sign ++ other).take
        (if (sign ++ other).head? == some '+' || (sign ++ other).head? == some '-' then 1 else 0) =
          sign := by
  by_cases plain : ∀ c ∈ text.head?, c ∉ ['+', '-']
  · refine ⟨[], text, rfl, .inl rfl, fun other next => ?_⟩
    have unsigned := next.not_mem (by decide) plain
    rw [List.nil_append, if_neg, List.take_zero]
    intro signed
    rcases Bool.or_eq_true_iff.mp signed with first | first
    · exact unsigned '+' (by simpa using first) (by decide)
    · exact unsigned '-' (by simpa using first) (by decide)
  · obtain ⟨c, rest, rfl, sign⟩ := exists_first plain
    refine ⟨[c], rest, rfl, .inr ⟨c, sign, rfl⟩, fun other _ => ?_⟩
    rcases List.mem_pair.mp sign with rfl | rfl <;> rfl

/-- An exponent of which the sign and the digits are known. -/
theorem exponentPart_signed {extra : Nat} {whole fraction sign digits : List Char}
    (letter : c ∈ ['e', 'E'])
    (signed : (sign ++ (digits ++ rest)).take (if (sign ++ (digits ++ rest)).head? == some '+' ||
      (sign ++ (digits ++ rest)).head? == some '-' then 1 else 0) = sign)
    (run : digitRun 10 (digits ++ rest) = digits) :
    exponentPart extra whole fraction ((c :: (sign ++ digits)) ++ rest) =
      if digits.isEmpty then
        fault (extra + 1 + sign.length + digits.length) (.malformedNumber .emptyExponent)
      else if endsInSeparator digits then
        fault (extra + 1 + sign.length + digits.length) (.malformedNumber .separatorAtEnd)
      else floating (extra + 1 + sign.length + digits.length) whole fraction
        (if sign == ['-'] then -number 10 digits else number 10 digits) rest := by
  have left : (sign ++ (digits ++ rest)).drop (sign.length + digits.length) = rest := by
    rw [← List.drop_drop, List.drop_left, List.drop_left]
  rw [List.cons_append, List.append_assoc]
  unfold exponentPart
  rcases List.mem_pair.mp letter with rfl | rfl <;>
    simp only [signed, List.drop_left, run, left]

theorem length_exponent (extra : Nat) (c : Char) (sign digits : List Char) :
    extra + (c :: (sign ++ digits)).length = extra + 1 + sign.length + digits.length := by
  rw [List.length_cons, List.length_append]
  omega

theorem takes_exponentPart (extra : Nat) (whole fraction text : List Char) :
    Takes Next extra (exponentPart extra whole fraction) text := by
  by_cases plain : ∀ c ∈ text.head?, c ∉ ['e', 'E']
  · refine Takes.behind [] (fun other next => ?_) (takes_floating extra whole fraction 0 text)
    exact exponentPart_plain (next.not_mem (by decide) plain)
  obtain ⟨c, text, rfl, letter⟩ := exists_first plain
  obtain ⟨sign, text, rfl, -, signed⟩ := exists_sign text
  obtain ⟨digits, rest, rfl, -, run⟩ := exists_digits 10 text
  rw [← List.append_assoc, ← List.cons_append]
  refine Takes.behind (c :: (sign ++ digits)) (fun other next =>
    exponentPart_signed letter (signed _ (next.append digits)) (run other next)) ?_
  rw [length_exponent]
  split
  · exact takes_nothing rfl fun _ _ => rfl
  split
  · exact takes_nothing rfl fun _ _ => rfl
  · exact takes_floating ..

theorem fractionPart_digits {extra : Nat} {whole digits : List Char}
    (run : digitRun 10 (digits ++ rest) = digits) : fractionPart extra whole (digits ++ rest) =
      if endsInSeparator digits then
        fault (extra + digits.length) (.malformedNumber .separatorAtEnd)
      else exponentPart (extra + digits.length) whole digits rest := by
  unfold fractionPart
  simp only [run, List.drop_left]

theorem takes_fractionPart (extra : Nat) (whole text : List Char) :
    Takes Next extra (fractionPart extra whole) text := by
  obtain ⟨digits, rest, rfl, -, run⟩ := exists_digits 10 text
  refine Takes.behind digits (fun other next => fractionPart_digits (run other next)) ?_
  split
  · exact takes_nothing rfl fun _ _ => rfl
  · exact takes_exponentPart ..

theorem prefixedInteger_digits {radix : Nat} {digits : List Char}
    (run : digitRun radix (digits ++ rest) = digits) : prefixedInteger radix (digits ++ rest) =
      if digits.isEmpty then fault (1 + digits.length) (.malformedNumber .noDigits)
      else if digits.head? == some '_' then
        fault (1 + digits.length) (.malformedNumber .separatorAfterRadix)
      else integer (1 + digits.length) radix digits rest := by
  unfold prefixedInteger
  simp only [run, List.drop_left]

theorem takes_prefixedInteger (radix : Nat) (text : List Char) :
    Takes Next 1 (prefixedInteger radix) text := by
  obtain ⟨digits, rest, rfl, -, run⟩ := exists_digits radix text
  refine Takes.behind digits (fun other next => prefixedInteger_digits (run other next)) ?_
  split
  · exact takes_nothing rfl fun _ _ => rfl
  split
  · exact takes_nothing rfl fun _ _ => rfl
  · exact takes_integer ..

/-- A point that stands before another one in the rest does so in the other text too, if it begins
that. -/
def Pointed (rest other : List Char) : Prop :=
  ∀ left, rest = '.' :: '.' :: left → other.head? = some '.' → other.tail.head? = some '.'

theorem startsFloating_cons (point : c ≠ '.') (text : List Char) :
    startsFloating (c :: text) = decide (c ∈ ['e', 'E', 'f', 'F', 'd', 'D']) := by
  unfold startsFloating
  split
  · next same => exact absurd (List.cons.inj same).1 point
  · next same => rw [(List.cons.inj same).1]
  · next same => cases same

theorem startsFloating_of_next (next : Next rest other) (pointed : Pointed rest other)
    (whole : startsFloating rest = false) : startsFloating other = false := by
  cases other with
  | nil => rfl
  | cons c other =>
    rcases next with same | space
    · obtain ⟨rest, rfl⟩ := List.head?_eq_some_iff.mp same.symm
      by_cases point : c = '.'
      · subst point
        cases rest with
        | nil => cases whole
        | cons d rest =>
          obtain rfl : d = '.' := by simpa [startsFloating] using whole
          have second := pointed rest rfl rfl
          simpa [startsFloating] using second
      · rwa [startsFloating_cons point] at whole ⊢
    · cases space
      rfl

/-- Digits with underscores among them. -/
def IsDigits (text : List Char) : Prop := ∀ c ∈ text, c = '_' ∨ isDigit 10 c

/-- What follows the digits of a number decides how it goes on. -/
theorem exists_decimal (first : Char) (text : List Char) : ∃ more rest, text = more ++ rest ∧
    IsDigits more ∧ ∀ other, Next rest other → decimalOrOctal first (more ++ other) =
      if startsFloating other then
        if endsInSeparator (first :: more) then
          fault more.length (.malformedNumber .separatorAtEnd)
        else match other with
          | '.' :: other => fractionPart (more.length + 1) (first :: more) other
          | other => exponentPart more.length (first :: more) [] other
      else if first = '0' && !more.isEmpty then
        if more.all fun c => c == '_' || isDigit 8 c then integer more.length 8 more other
        else fault more.length (.malformedNumber .notOctal)
      else integer more.length 10 (first :: more) other := by
  obtain ⟨more, rest, same, all, stops, run⟩ :=
    exists_run (fun c => c == '_' || isDigit 10 c) text
  refine ⟨more, rest, same, by simpa [IsDigits] using all, fun other next => ?_⟩
  have digits : digitRun 10 (more ++ other) = more :=
    run other (next.takeWhile_eq_nil rfl stops)
  have read := Eq.refl (decimalOrOctal first (more ++ other))
  conv at read => rhs; unfold decimalOrOctal
  simp only [digits, List.drop_left] at read
  exact read

/-- The letter of an exponent or a suffix is part of the number. -/
theorem extra_lt_exponentPart {extra : Nat} {whole fraction : List Char}
    (letter : c ∈ ['e', 'E', 'f', 'F', 'd', 'D']) :
    extra < (exponentPart extra whole fraction (c :: rest)).extra := by
  by_cases plain : c ∉ ['e', 'E']
  · have suffix : c ∈ ['f', 'F', 'd', 'D'] := by
      simp only [List.mem_cons, List.not_mem_nil, or_false] at letter plain ⊢
      exact (or_assoc.mpr letter).resolve_left plain
    rw [exponentPart_plain (by simpa using plain), extra_floating suffix]
    exact Nat.lt_succ_self extra
  · have either : c = 'e' ∨ c = 'E' := by simpa using Classical.not_not.mp plain
    have further (digits : List Char) (more : Nat) (exponent : Int) (left : List Char) :
        extra < (if digits.isEmpty then
            fault (extra + 1 + more) (.malformedNumber .emptyExponent)
          else if endsInSeparator digits then
            fault (extra + 1 + more) (.malformedNumber .separatorAtEnd)
          else floating (extra + 1 + more) whole fraction exponent left).extra := by
      have less : extra < extra + 1 + more := by omega
      split
      · exact less
      split
      · exact less
      · exact Nat.lt_of_lt_of_le less (takes_floating ..).le
    unfold exponentPart
    rcases either with rfl | rfl <;> simp only [Nat.add_assoc] at further ⊢ <;> apply further

/-- A number that goes on with a point or a letter. -/
theorem takes_decimal_floating {first : Char} {more : List Char}
    (read : ∀ other, Next rest other → startsFloating other →
      decimalOrOctal first (more ++ other) = match other with
        | '.' :: other => fractionPart (more.length + 1) (first :: more) other
        | other => exponentPart more.length (first :: more) [] other)
    (floats : startsFloating rest) :
    Takes Next 0 (decimalOrOctal first) (more ++ rest) := by
  have start : 0 + more.length = more.length := Nat.zero_add _
  cases rest with
  | nil => cases floats
  | cons c rest =>
    by_cases point : c = '.'
    · subst point
      have single : ∀ c ∈ rest.head?, c ∉ ['.'] := by
        rintro c first dot
        simp [startsFloating, Option.mem_def.mp first, List.mem_singleton.mp dot] at floats
      have takes := takes_fractionPart (more.length + 1) (first :: more) rest
      rw [List.append_cons]
      refine Takes.behind (more ++ ['.']) (fun other next => ?_)
        (by simpa [start] using takes)
      rw [List.append_assoc]
      refine read _ (.inl rfl) ?_
      have apart := next.not_mem (by decide) single
      have first : other.head? ≠ some '.' := fun dot => apart '.' dot (List.mem_singleton_self _)
      simpa [startsFloating] using first
    · have letter : c ∈ ['e', 'E', 'f', 'F', 'd', 'D'] := by
        simpa [startsFloating_cons point] using floats
      obtain ⟨taken, left, whole, length, same⟩ :=
        takes_exponentPart more.length (first :: more) [] (c :: rest)
      cases taken with
      | nil =>
        have longer := @extra_lt_exponentPart rest c more.length (first :: more) [] letter
        rw [length] at longer
        exact absurd longer (Nat.lt_irrefl _)
      | cons d taken =>
        rw [List.cons_append, List.cons.injEq] at whole
        obtain ⟨rfl, rfl⟩ := whole
        have goesOn (other : List Char) : decimalOrOctal first (more ++ c :: (taken ++ other)) =
            exponentPart more.length (first :: more) [] (c :: (taken ++ other)) := by
          rw [read (c :: (taken ++ other)) (.inl rfl)
            (by simpa [startsFloating_cons point] using letter)]
          split
          · next same => exact absurd (List.cons.inj same).1 point
          · rfl
        refine ⟨more ++ c :: taken, left, by simp, ?_, fun other next => ?_⟩
        · rw [goesOn, length]
          simp
        · rw [goesOn, List.append_assoc, List.cons_append, goesOn]
          exact same other next

theorem extra_integer_point (extra radix : Nat) (digits : List Char) :
    (integer extra radix digits ('.' :: rest)).extra = extra := by
  have short : (('.' :: rest).head? == some 'l' || ('.' :: rest).head? == some 'L') = false := rfl
  unfold integer
  simp only [short, if_false, Bool.false_eq_true]
  split
  · rfl
  split <;> rfl

theorem kind_integer_point {extra radix : Nat} {digits : List Char} {found : Kind × TokenValue}
    (ok : (integer extra radix digits ('.' :: rest)).outcome = .ok found) :
    found.1 = .intLiteral := by
  have short : (('.' :: rest).head? == some 'l' || ('.' :: rest).head? == some 'L') = false := rfl
  unfold integer at ok
  simp only [short, if_false, Bool.false_eq_true] at ok
  split at ok
  · cases ok
  split at ok <;> cases ok
  rfl

/-- A number without a radix letter ends before a point that stands before another one only as long
as it does. -/
theorem takes_decimalOrOctal {first : Char} {found : Kind × TokenValue}
    (ok : (decimalOrOctal first text).outcome = .ok found) :
    ∃ taken rest, text = taken ++ rest ∧ (decimalOrOctal first text).extra = taken.length ∧
      ∀ other, Next rest other → (found.1 = .intLiteral → IsDigits taken → Pointed rest other) →
        decimalOrOctal first (taken ++ other) = decimalOrOctal first text := by
  obtain ⟨more, rest, rfl, digits, read⟩ := exists_decimal first text
  have here := read rest (.inl rfl)
  by_cases floats : startsFloating rest
  · have whole : endsInSeparator (first :: more) = false := by
      refine eq_false_of_ne_true fun broken => ?_
      rw [here, if_pos floats, if_pos broken] at ok
      cases ok
    obtain ⟨taken, left, same, length, rest⟩ := takes_decimal_floating (fun other next point => by
      rw [read other next, if_pos point, if_neg (by simp [whole])]) floats
    exact ⟨taken, left, same, by simpa using length, fun other next _ => rest other next⟩
  · obtain ⟨radix, written, read⟩ : ∃ radix written, ∀ other, Next rest other →
        startsFloating other = false →
          decimalOrOctal first (more ++ other) = integer more.length radix written other := by
      rw [here, if_neg floats] at ok
      by_cases octal : (decide (first = '0') && !more.isEmpty) = true
      · have all : (more.all fun c => c == '_' || isDigit 8 c) = true := by
          by_contra decimal
          rw [if_pos octal, if_neg decimal] at ok
          cases ok
        exact ⟨8, more, fun other next point => by
          rw [read other next, if_neg (by simp [point]), if_pos octal, if_pos all]⟩
      · exact ⟨10, first :: more, fun other next point => by
          rw [read other next, if_neg (by simp [point]), if_neg octal]⟩
    have unpointed := eq_false_of_ne_true floats
    have whole := read rest (.inl rfl) unpointed
    obtain ⟨taken, left, rfl, length, same⟩ := takes_integer more.length radix written rest
    refine ⟨more ++ taken, left, (List.append_assoc ..).symm, ?_, fun other next pointed => ?_⟩
    · rw [whole, length, List.length_append]
    · rw [List.append_assoc, whole, ← same other next]
      refine read _ (next.append taken) (startsFloating_of_next (next.append taken) ?_ unpointed)
      -- A suffix is no point, so what stands before a point is the digits alone.
      intro after points
      have none : taken = [] := by
        rw [points, extra_integer_point] at length
        exact List.length_eq_zero_iff.mp (by omega)
      subst none
      rw [whole, points] at ok
      exact pointed (kind_integer_point ok) (by simpa using digits) after points

theorem numeric_plain {first : Char}
    (plain : first = '0' → ∀ c ∈ text.head?, c ∉ ['x', 'X', 'b', 'B']) :
    numeric first text = decimalOrOctal first text := by
  unfold numeric
  split
  · exact absurd (by decide) (plain rfl 'x' rfl)
  · exact absurd (by decide) (plain rfl 'X' rfl)
  · exact absurd (by decide) (plain rfl 'b' rfl)
  · exact absurd (by decide) (plain rfl 'B' rfl)
  · rfl

theorem takes_numeric {first : Char} {found : Kind × TokenValue}
    (ok : (numeric first text).outcome = .ok found) :
    ∃ taken rest, text = taken ++ rest ∧ (numeric first text).extra = taken.length ∧
      ∀ other, Next rest other → (found.1 = .intLiteral → IsDigits taken → Pointed rest other) →
        numeric first (taken ++ other) = numeric first text := by
  by_cases plain : first = '0' → ∀ c ∈ text.head?, c ∉ ['x', 'X', 'b', 'B']
  · rw [numeric_plain plain] at ok ⊢
    obtain ⟨taken, rest, rfl, length, same⟩ := takes_decimalOrOctal ok
    refine ⟨taken, rest, rfl, length, fun other next pointed => ?_⟩
    rw [numeric_plain fun zero => (next.append taken).not_mem (by decide) (plain zero)]
    exact same other next pointed
  · rw [Classical.not_imp] at plain
    obtain ⟨rfl, lettered⟩ := plain
    obtain ⟨c, rest, rfl, letter⟩ := exists_first lettered
    have prefixed (radix : Nat)
        (same : ∀ other, numeric '0' (c :: other) = prefixedInteger radix other) :
        Takes Next 0 (numeric '0') ([c] ++ rest) :=
      Takes.behind [c] (fun other _ => same other) (takes_prefixedInteger radix rest)
    obtain ⟨taken, left, whole, length, same⟩ : Takes Next 0 (numeric '0') (c :: rest) := by
      simp only [List.mem_cons, List.not_mem_nil, or_false] at letter
      rcases letter with rfl | rfl | rfl | rfl
      · exact prefixed 16 fun _ => rfl
      · exact prefixed 16 fun _ => rfl
      · exact prefixed 2 fun _ => rfl
      · exact prefixed 2 fun _ => rfl
    exact ⟨taken, left, whole, by simpa using length, fun other next _ => same other next⟩

/-- What begins with a digit is a number. -/
theorem scan_of_isDigit (digit : isDigit 10 c) (inTypes : Bool) (text : List Char) :
    scan inTypes c text = numeric c text := by
  have other {d : Char} (no : isDigit 10 d = false) : c ≠ d := by
    rintro rfl
    rw [digit] at no
    cases no
  have blank : isBlank c = false := by
    simp [isBlank, @other ' ' rfl, @other '\t' rfl, @other '\x0c' rfl]
  rw [scan, if_neg (by simp [blank]), if_neg (other rfl), if_neg (other rfl), if_neg (other rfl),
    if_neg (other rfl), if_neg (other rfl), if_pos digit]

end JavaFrontend.Lexeme
