import JavaFrontend.Proofs.Token.Lexing
import JavaFrontend.Proofs.Token.Locality.Scan
import Mathlib.Data.List.Chain

/-!
Underscores in numbers. In whatever text a number is found, there is a digit directly behind each
run of underscores in it, and a digit directly in front of it, but in a floating-point number there
may also be the point, the letter of the exponent or the sign of the exponent in front of it
(`Lexer.separators_of_run`).
-/

namespace JavaFrontend

/-- Whether the kind is one of floating-point literals. -/
def Kind.isFloating : Kind → Bool
  | .floatLiteral | .doubleLiteral => true
  | _ => false

/-- Whether the kind is one of numeric literals. -/
def Kind.isNumber : Kind → Bool
  | .intLiteral | .longLiteral => true
  | kind => kind.isFloating

namespace Lexeme

open Digits

variable {radix start : Nat} {marks text more front back : List Char} {c : Char}

/-! ### Underscores between digits -/

/-- An underscore and the character beside it: in front of it is another one, a digit or a mark, and
behind it is another one or a digit. -/
def Beside (radix : Nat) (marks : List Char) (a b : Char) : Prop :=
  (b = '_' → a = '_' ∨ isDigit radix a ∨ a ∈ marks) ∧ (a = '_' → b = '_' ∨ isDigit radix b)

/-- All underscores in the text are between such characters. -/
structure Separated (radix : Nat) (marks text : List Char) : Prop where
  beside : text.IsChain (Beside radix marks)
  first : text.head? ≠ some '_'
  last : text.getLast? ≠ some '_'

theorem separated_append (before : Separated radix marks front)
    (behind : Separated radix marks back) : Separated radix marks (front ++ back) where
  beside := by
    refine List.isChain_append.mpr ⟨before.beside, behind.beside, fun a isLast b isFirst => ?_⟩
    refine ⟨fun separator => ?_, fun separator => ?_⟩
    · exact absurd (separator ▸ isFirst) behind.first
    · exact absurd (separator ▸ isLast) before.last
  first := by
    rw [List.head?_append]
    cases front with
    | nil => exact behind.first
    | cons => exact before.first
  last := by
    rw [List.getLast?_append]
    cases last : back.getLast? with
    | none => exact before.last
    | some d => exact fun separator => behind.last (last.trans separator)

/-- Where no underscores are. -/
theorem separated_of_ne (solid : ∀ c ∈ text, c ≠ '_') : Separated radix marks text where
  beside := by
    induction text with
    | nil => exact .nil
    | cons a text ih =>
      obtain ⟨here, later⟩ := List.forall_mem_cons.mp solid
      refine List.isChain_cons.mpr ⟨fun b isFirst => ⟨fun separator => ?_, fun separator => ?_⟩, ih later⟩
      · exact absurd separator (later b (List.mem_of_head? isFirst))
      · exact absurd separator here
  first separator := solid _ (List.mem_of_head? separator) rfl
  last separator := solid _ (List.mem_of_getLast? separator) rfl

theorem beside_of_spelled (known : c = '_' ∨ isDigit radix c ∨ c ∈ marks)
    (spelled : ∀ d ∈ more, d = '_' ∨ isDigit radix d) :
    (c :: more).IsChain (Beside radix marks) := by
  induction more generalizing c with
  | nil => exact .singleton c
  | cons d more ih =>
    obtain ⟨here, later⟩ := List.forall_mem_cons.mp spelled
    exact .cons_cons ⟨fun _ => known, fun _ => here⟩ (ih (here.imp_right .inl) later)

/-- Digits with underscores among them, none of which is the last character, behind a digit or a
mark. -/
theorem separated_cons (known : isDigit radix c ∨ c ∈ marks) (solid : c ≠ '_')
    (spelled : ∀ d ∈ more, d = '_' ∨ isDigit radix d) (whole : endsInSeparator more = false) :
    Separated radix marks (c :: more) where
  beside := beside_of_spelled (.inr known) spelled
  first := by simpa using solid
  last := by
    cases more with
    | nil => simpa using solid
    | cons d more =>
      rw [List.getLast?_cons_cons]
      simpa [endsInSeparator] using whole

theorem endsInSeparator_tail (whole : endsInSeparator (c :: more) = false) :
    endsInSeparator more = false := by
  cases more with
  | nil => rfl
  | cons d more => rwa [endsInSeparator, List.getLast?_cons_cons] at whole

/-! ### What is taken for a number -/

/-- If something is found, it takes the beginning of the text beyond the characters that were read,
and its kind and what it takes are as stated. -/
def Finds (Is : Kind → List Char → Prop) (start : Nat) (lexeme : Lexeme) (text : List Char) : Prop :=
  ∀ found, lexeme.outcome = .ok found → ∃ taken rest, text = taken ++ rest ∧
    lexeme.extra = start + taken.length ∧ Is found.1 taken

variable {Is Later : Kind → List Char → Prop} {lexeme : Lexeme}

theorem finds_fault (extra : Nat) (reason : LexError) : Finds Is start (fault extra reason) text :=
  fun _ ok => by cases ok

theorem finds_literal {kind : Kind} {value : TokenValue} {taken rest : List Char}
    (is : Is kind taken) :
    Finds Is start (literal (start + taken.length) kind value) (taken ++ rest) := by
  intro found ok
  cases ok
  exact ⟨taken, rest, rfl, rfl, is⟩

/-- What is found behind some characters that are read. -/
theorem Finds.behind {rest : List Char} {later : Nat} (finds : Finds Later later lexeme rest)
    (read : List Char) (length : later = start + read.length)
    (is : ∀ kind taken, Later kind taken → Is kind (read ++ taken)) :
    Finds Is start lexeme (read ++ rest) := by
  intro found ok
  obtain ⟨taken, left, rfl, extra, behind⟩ := finds found ok
  refine ⟨read ++ taken, left, (List.append_assoc ..).symm, ?_, is _ _ behind⟩
  rw [extra, length, List.length_append, Nat.add_assoc]

theorem solid_suffix {suffix : List Char} (isSuffix : suffix ∈ suffixes) :
    ∀ c ∈ suffix, c ≠ '_' := by
  have all : suffixes.all fun suffix => suffix.all (· != '_') := by decide
  simpa using List.all_eq_true.mp all suffix isSuffix

/-- Behind the digits of an integer there is at most the letter for long integers. -/
theorem finds_integer (extra radix : Nat) (digits text : List Char) :
    Finds (fun kind taken => endsInSeparator digits = false ∧ kind.isFloating = false ∧
      taken ∈ suffixes) extra (integer extra radix digits text) text := by
  by_cases broken : endsInSeparator digits
  · rw [integer, if_pos broken]
    exact finds_fault _ _
  have whole := eq_false_of_ne_true broken
  rw [integer, if_neg broken]
  dsimp only
  by_cases long : text.head? = some 'l' ∨ text.head? = some 'L'
  · rw [if_pos (by simpa using long)]
    split
    · rcases long with same | same <;> obtain ⟨rest, rfl⟩ := List.head?_eq_some_iff.mp same
      · exact @finds_literal extra _ _ _ ['l'] rest ⟨whole, rfl, by decide⟩
      · exact @finds_literal extra _ _ _ ['L'] rest ⟨whole, rfl, by decide⟩
    · exact finds_fault _ _
  · rw [if_neg (by simpa using long)]
    split
    · exact @finds_literal extra _ _ _ [] text ⟨whole, rfl, by decide⟩
    · exact finds_fault _ _

/-- The characters beside the digits of a floating-point number. -/
def floatingMarks : List Char := ['.', 'e', 'E', '+', '-']

/-- A floating-point number in which all underscores are between such characters and digits. -/
def IsFloating (kind : Kind) (text : List Char) : Prop :=
  kind.isFloating ∧ Separated 10 floatingMarks text

/-- Behind its digits there is at most the letter of its type. -/
theorem finds_floating (extra : Nat) (whole fraction : List Char) (exponent : Int)
    (text : List Char) :
    Finds IsFloating extra (floating extra whole fraction exponent text) text := by
  have suffix {kind : Kind} {value : TokenValue} {c : Char} {rest : List Char}
      (floats : kind.isFloating) (solid : c ≠ '_') :
      Finds IsFloating extra (literal (extra + 1) kind value) (c :: rest) :=
    @finds_literal extra _ _ _ [c] rest
      ⟨floats, separated_of_ne (List.forall_mem_singleton.mpr solid)⟩
  unfold floating
  dsimp only
  split
  · next same =>
    obtain ⟨rest, rfl⟩ := List.head?_eq_some_iff.mp same
    split
    · exact suffix rfl (by decide)
    · exact finds_fault _ _
  · next same =>
    obtain ⟨rest, rfl⟩ := List.head?_eq_some_iff.mp same
    split
    · exact suffix rfl (by decide)
    · exact finds_fault _ _
  · split
    · by_cases double : text.head? = some 'd' ∨ text.head? = some 'D'
      · rw [if_pos (by simpa using double)]
        rcases double with same | same <;> obtain ⟨rest, rfl⟩ := List.head?_eq_some_iff.mp same
        · exact suffix rfl (by decide)
        · exact suffix rfl (by decide)
      · rw [if_neg (by simpa using double)]
        exact @finds_literal extra _ _ _ [] text ⟨rfl, separated_of_ne (by simp)⟩
    · exact finds_fault _ _

theorem finds_exponentPart (extra : Nat) (whole fraction text : List Char) :
    Finds IsFloating extra (exponentPart extra whole fraction text) text := by
  by_cases plain : ∀ c ∈ text.head?, c ∉ ['e', 'E']
  · rw [exponentPart_plain plain]
    exact finds_floating _ _ _ _ _
  obtain ⟨c, text, rfl, letter⟩ := exists_first plain
  obtain ⟨sign, text, rfl, isSign, signed⟩ := exists_sign text
  obtain ⟨digits, rest, rfl, spelled, run⟩ := exists_digits 10 text
  rw [← List.append_assoc, ← List.cons_append,
    exponentPart_signed letter (signed _ (.inl rfl)) (run rest (.inl rfl))]
  split
  · exact finds_fault _ _
  split
  · exact finds_fault _ _
  next broken =>
  have length := (length_exponent extra c sign digits).symm
  refine (finds_floating _ _ _ _ _).behind _ length fun kind taken => .imp_right (separated_append ?_)
  have mark : c ∈ floatingMarks ∧ c ≠ '_' := by
    rcases List.mem_pair.mp letter with rfl | rfl <;> decide
  have behind {c : Char} (mark : c ∈ floatingMarks ∧ c ≠ '_') :=
    separated_cons (.inr mark.1) mark.2 spelled (eq_false_of_ne_true broken)
  rcases isSign with rfl | ⟨sign, isMark, rfl⟩
  · exact behind mark
  · refine separated_append (separated_of_ne (List.forall_mem_singleton.mpr mark.2)) (behind ?_)
    rcases List.mem_pair.mp isMark with rfl | rfl <;> decide

/-- Behind a point. -/
theorem finds_fractionPart (extra : Nat) (whole text : List Char) :
    Finds (fun kind taken => IsFloating kind ('.' :: taken)) extra (fractionPart extra whole text)
      text := by
  obtain ⟨digits, rest, rfl, spelled, run⟩ := exists_digits 10 text
  rw [fractionPart_digits (run rest (.inl rfl))]
  split
  · exact finds_fault _ _
  next broken =>
  have front : Separated 10 floatingMarks ('.' :: digits) :=
    separated_cons (.inr (by decide)) (by decide) spelled (eq_false_of_ne_true broken)
  exact (finds_exponentPart _ _ _ _).behind _ rfl fun kind taken => .imp_right (separated_append front)

/-- Behind a radix letter. -/
theorem finds_prefixedInteger (radix : Nat) (text : List Char) :
    Finds (fun kind taken => kind.isFloating = false ∧ Separated radix [] taken) 1
      (prefixedInteger radix text) text := by
  obtain ⟨digits, rest, rfl, spelled, run⟩ := exists_digits radix text
  rw [prefixedInteger_digits (run rest (.inl rfl))]
  cases digits with
  | nil => exact finds_fault _ _
  | cons c more =>
    rw [if_neg (by simp)]
    split
    · exact finds_fault _ _
    next first =>
    have solid : c ≠ '_' := by simpa using first
    obtain ⟨here, later⟩ := List.forall_mem_cons.mp spelled
    refine (finds_integer _ _ _ _).behind _ rfl fun kind taken ⟨whole, integer, suffix⟩ => ?_
    have front : Separated radix [] (c :: more) :=
      separated_cons (.inl (here.resolve_left solid)) solid later (endsInSeparator_tail whole)
    exact ⟨integer, separated_append front (separated_of_ne (solid_suffix suffix))⟩

/-! ### The radix of a number -/

/-- The radix of an integer literal. -/
def integerRadix : List Char → Nat
  | '0' :: c :: _ =>
    if c ∈ ['x', 'X'] then 16
    else if c ∈ ['b', 'B'] then 2
    else if c ∈ ['l', 'L'] then 10
    else 8
  | _ => 10

/-- The radix of a literal of the kind. -/
def literalRadix (kind : Kind) (text : List Char) : Nat :=
  if kind.isFloating then 10 else integerRadix text

/-- The characters other than digits that may stand in front of an underscore. -/
def marksOf (kind : Kind) : List Char := if kind.isFloating then floatingMarks else []

/-- In a number of the kind all underscores are between digits of its radix, or behind a mark of a
floating-point number. -/
def SeparatedAs (kind : Kind) (text : List Char) : Prop :=
  Separated (literalRadix kind text) (marksOf kind) text

theorem separatedAs_of_isFloating {kind : Kind} (floating : IsFloating kind text) :
    SeparatedAs kind text := by
  rw [SeparatedAs, literalRadix, marksOf, if_pos floating.1, if_pos floating.1]
  exact floating.2

theorem separatedAs_of_integer {kind : Kind} (integer : kind.isFloating = false)
    (same : integerRadix text = radix) (separated : Separated radix [] text) :
    SeparatedAs kind text := by
  have other : ¬ kind.isFloating := by simp [integer]
  rw [SeparatedAs, literalRadix, marksOf, if_neg other, if_neg other, same]
  exact separated

theorem integerRadix_octal (spelled : ∀ c ∈ more, c = '_' ∨ isDigit 8 c) (filled : more ≠ [])
    (rest : List Char) : integerRadix ('0' :: (more ++ rest)) = 8 := by
  have letters : ['x', 'X', 'b', 'B', 'l', 'L'].all fun c => c != '_' && !isDigit 8 c := by decide
  cases more with
  | nil => exact absurd rfl filled
  | cons c more =>
    have other : c ∉ ['x', 'X', 'b', 'B', 'l', 'L'] := fun letter => by
      obtain ⟨solid, digit⟩ := by simpa using List.all_eq_true.mp letters c letter
      rcases spelled c (.head _) with separator | isDigit
      · exact solid separator
      · simp [isDigit] at digit
    simp only [List.mem_cons, List.not_mem_nil, or_false, not_or] at other
    simp [integerRadix, other]

/-- A number of more than one digit without radix letter is decimal if it does not begin with a
zero. -/
theorem integerRadix_decimal {first : Char} {suffix : List Char}
    (plain : (decide (first = '0') && !more.isEmpty) = false)
    (isSuffix : suffix ∈ suffixes) :
    integerRadix (first :: (more ++ suffix)) = 10 := by
  by_cases zero : first = '0'
  · obtain rfl : more = [] := by simpa [zero] using plain
    subst zero
    simp only [suffixes, List.mem_cons, List.not_mem_nil, or_false] at isSuffix
    rcases isSuffix with rfl | rfl | rfl <;> rfl
  · unfold integerRadix
    split
    · next same => exact absurd (List.cons.inj same).1 zero
    · rfl

theorem finds_decimalOrOctal {first : Char} (digit : isDigit 10 first) (text : List Char) :
    Finds (fun kind taken => SeparatedAs kind (first :: taken)) 0 (decimalOrOctal first text)
      text := by
  obtain ⟨more, rest, rfl, spelled, read⟩ := exists_decimal first text
  have solid : first ≠ '_' := by
    rintro rfl
    cases digit
  rw [read rest (.inl rfl)]
  -- The zero of an octal number is no part of the digits that are checked, so it is put in front of
  -- them here, as the first digit of the other numbers is.
  split
  · split
    · exact finds_fault _ _
    next broken =>
    have front : Separated 10 floatingMarks (first :: more) :=
      separated_cons (.inl digit) solid spelled (endsInSeparator_tail (eq_false_of_ne_true broken))
    split
    · next rest =>
      rw [List.append_cons]
      refine (finds_fractionPart _ _ _).behind _ (by simp) fun kind taken floating => ?_
      rw [List.append_assoc]
      exact separatedAs_of_isFloating ⟨floating.1, separated_append front floating.2⟩
    · exact (finds_exponentPart _ _ _ _).behind _ (Nat.zero_add _).symm fun kind taken floating =>
        separatedAs_of_isFloating ⟨floating.1, separated_append front floating.2⟩
  split
  · next octal =>
    obtain ⟨rfl, filled⟩ : first = '0' ∧ more ≠ [] := by simpa using octal
    split
    · next all =>
      have spelled : ∀ c ∈ more, c = '_' ∨ isDigit 8 c := by simpa using all
      refine (finds_integer _ _ _ _).behind _ (Nat.zero_add _).symm
        fun kind taken ⟨whole, integer, suffix⟩ => ?_
      have front : Separated 8 [] ('0' :: more) :=
        separated_cons (.inl rfl) (by decide) spelled whole
      exact separatedAs_of_integer integer (integerRadix_octal spelled filled taken)
        (separated_append front (separated_of_ne (solid_suffix suffix)))
    · exact finds_fault _ _
  · next plain =>
    refine (finds_integer _ _ _ _).behind _ (Nat.zero_add _).symm
      fun kind taken ⟨whole, integer, suffix⟩ => ?_
    have front : Separated 10 [] (first :: more) :=
      separated_cons (.inl digit) solid spelled (endsInSeparator_tail whole)
    exact separatedAs_of_integer integer
      (integerRadix_decimal (eq_false_of_ne_true plain) suffix)
      (separated_append front (separated_of_ne (solid_suffix suffix)))

theorem finds_numeric {first : Char} (digit : isDigit 10 first) (text : List Char) :
    Finds (fun kind taken => SeparatedAs kind (first :: taken)) 0 (numeric first text) text := by
  by_cases plain : first = '0' → ∀ c ∈ text.head?, c ∉ ['x', 'X', 'b', 'B']
  · rw [numeric_plain plain]
    exact finds_decimalOrOctal digit text
  obtain ⟨rfl, lettered⟩ := Classical.not_imp.mp plain
  obtain ⟨letter, rest, rfl, isLetter⟩ := exists_first lettered
  have prefixed (radix : Nat) (numbers : numeric '0' (letter :: rest) = prefixedInteger radix rest)
      (same : ∀ taken, integerRadix ('0' :: letter :: taken) = radix) (solid : letter ≠ '_') :
      Finds (fun kind taken => SeparatedAs kind ('0' :: taken)) 0 (numeric '0' (letter :: rest))
        ([letter] ++ rest) := by
    rw [numbers]
    refine (finds_prefixedInteger radix rest).behind _ rfl fun kind taken ⟨integer, digits⟩ => ?_
    have front : Separated radix [] ['0', letter] := separated_of_ne (by simp [solid])
    exact separatedAs_of_integer integer (same taken) (separated_append front digits)
  simp only [List.mem_cons, List.not_mem_nil, or_false] at isLetter
  rcases isLetter with rfl | rfl | rfl | rfl
  · exact prefixed 16 rfl (fun _ => rfl) (by decide)
  · exact prefixed 16 rfl (fun _ => rfl) (by decide)
  · exact prefixed 2 rfl (fun _ => rfl) (by decide)
  · exact prefixed 2 rfl (fun _ => rfl) (by decide)

/-! ### Numbers among other tokens -/

theorem kind_charEnd {extra : Nat} {value : Char} {found : Kind × TokenValue}
    (ok : (charEnd extra value text).outcome = .ok found) : found.1 = .charLiteral := by
  unfold charEnd at ok
  split at ok
  · cases ok
    rfl
  · dsimp only at ok
    split at ok <;> cases ok

theorem kind_charLiteral {found : Kind × TokenValue}
    (ok : (charLiteral text).outcome = .ok found) : found.1 = .charLiteral := by
  unfold charLiteral at ok
  split at ok
  · cases ok
  split at ok
  · cases ok
  split at ok
  · cases ok
  split at ok
  · split at ok
    · exact kind_charEnd ok
    · cases ok
  · exact kind_charEnd ok

theorem kind_stringRest {extra : Nat} {value : List Char} {found : Kind × TokenValue}
    (ok : (stringRest extra value text).outcome = .ok found) : found.1 = .stringLiteral := by
  fun_induction stringRest extra value text with
  | case1 | case2 | case5 => cases ok
  | case3 =>
    cases ok
    rfl
  | case4 _ _ _ _ _ _ _ _ ih | case6 _ _ _ _ _ _ _ ih => exact ih ok

theorem isNumber_of_isPlain {kind : Kind} (plain : isPlain kind) : kind.isNumber = false := by
  revert plain
  cases kind <;> decide

theorem isNumber_of_symbol {inTypes : Bool} {found : Kind × TokenValue}
    (ok : (symbol inTypes c text).outcome = .ok found) : found.1.isNumber = false := by
  rw [symbol_eq] at ok
  split at ok
  · cases ok
    rfl
  split at ok
  · next known =>
    cases ok
    exact isNumber_of_isPlain (isPlain_of_mem_fixed (mem_fixed_of_symbol? known).1)
  · cases ok

/-- A number begins with a digit or a point. -/
theorem begins_number {inTypes : Bool} {found : Kind × TokenValue}
    (ok : (scan inTypes c text).outcome = .ok found) (number : found.1.isNumber) :
    isDigit 10 c ∧ scan inTypes c text = numeric c text ∨
      c = '.' ∧ scan inTypes c text = fractionPart 0 [] text := by
  have other {bare : Prop} (none : found.1.isNumber = false) : bare := by
    rw [none] at number
    cases number
  have scans := scans inTypes c text
  generalize scan inTypes c text = lexeme at ok scans ⊢
  cases scans with
  | blank extra trivia =>
    cases ok
    exact other (isNumber_of_isPlain (isPlain_of_isTrivia trivia))
  | character => exact other (by rw [kind_charLiteral ok]; rfl)
  | string => exact other (by rw [kind_stringRest ok]; rfl)
  | number digit => exact .inl ⟨digit, rfl⟩
  | word =>
    cases ok
    exact other (isNumber_of_isPlain (isPlain_wordKind _))
  | fraction point => exact .inr ⟨point, rfl⟩
  | comment comment =>
    exact other (isNumber_of_isPlain (isPlain_of_isTrivia (takes_comment comment ok).1))
  | symbol => exact other (isNumber_of_symbol ok)

/-- A number that is found anywhere is written with its underscores between digits and marks. -/
theorem finds_scan {inTypes : Bool} {found : Kind × TokenValue}
    (ok : (scan inTypes c text).outcome = .ok found) (number : found.1.isNumber) :
    ∃ taken rest, text = taken ++ rest ∧ (scan inTypes c text).extra = 0 + taken.length ∧
      SeparatedAs found.1 (c :: taken) := by
  rcases begins_number ok number with ⟨digit, scanned⟩ | ⟨rfl, scanned⟩
  · rw [scanned] at ok ⊢
    exact finds_numeric digit text found ok
  · rw [scanned] at ok ⊢
    obtain ⟨taken, rest, same, length, floating⟩ := finds_fractionPart 0 [] text found ok
    exact ⟨taken, rest, same, length, separatedAs_of_isFloating floating⟩

/-! ### Runs of underscores -/

/-- In front of each run of underscores in the text, taken with all underscores that it goes on
with, there is a character of the one sort, and behind it one of the other. -/
def RunsBetween (InFront Behind : Char → Prop) (text : List Char) : Prop :=
  ∀ (before after : List Char) (more : Nat),
    text = before ++ (List.replicate (more + 1) '_' ++ after) →
      before.getLast? ≠ some '_' → after.head? ≠ some '_' →
        (∃ c ∈ before.getLast?, InFront c) ∧ ∃ c ∈ after.head?, Behind c

theorem runsBetween_of_separated (separated : Separated radix marks text) :
    RunsBetween (fun c => isDigit radix c ∨ c ∈ marks) (fun c => isDigit radix c) text := by
  rintro before after more rfl begins ends
  obtain ⟨beside, first, last⟩ := separated
  -- The chain is broken before the run and behind it: what is left are its two pairs of neighbours.
  obtain ⟨-, chain, front⟩ := List.isChain_append.mp beside
  obtain ⟨-, -, back⟩ := List.isChain_append.mp chain
  constructor
  · cases final : before.getLast? with
    | none =>
      rw [List.getLast?_eq_none_iff.mp final, List.replicate_succ] at first
      exact absurd rfl first
    | some c =>
      have solid : c ≠ '_' := fun separator => begins (separator ▸ final)
      have known := (front c final '_' rfl).1 rfl
      exact ⟨c, rfl, known.resolve_left solid⟩
  · cases next : after.head? with
    | none =>
      rw [List.head?_eq_none_iff.mp next, List.append_nil, List.replicate_succ', ← List.append_assoc,
        List.getLast?_concat] at last
      exact absurd rfl last
    | some c =>
      have solid : c ≠ '_' := fun separator => ends (separator ▸ next)
      have known := (back '_' (by rw [List.replicate_succ', List.getLast?_concat]; rfl) c next).2 rfl
      exact ⟨c, rfl, known.resolve_left solid⟩

end Lexeme

namespace Lexer

open Digits Lexeme

variable {lexer : Lexer}

theorem separatedAs_next (number : lexer.next.1.kind.isNumber) :
    SeparatedAs lexer.next.1.kind lexer.next.1.text.toList := by
  obtain ⟨text, position, inTypes⟩ := lexer
  cases text with
  | nil => cases number
  | cons c text =>
    unfold next at number ⊢
    dsimp only at number ⊢
    cases outcome : (scan inTypes c text).outcome with
    | error reason =>
      rw [outcome] at number
      cases number
    | ok found =>
      rw [outcome] at number
      obtain ⟨taken, rest, rfl, length, separated⟩ := finds_scan outcome number
      rw [length, Nat.zero_add, List.take_left]
      simpa using separated

theorem separatedAs_run (calls : List Call) : ∀ token ∈ (lexer.run calls).1,
    token.kind.isNumber → SeparatedAs token.kind token.text.toList := by
  induction calls generalizing lexer with
  | nil => simp [run]
  | cons call calls ih =>
    rw [run_cons]
    refine List.forall_mem_append.mpr ⟨?_, ih⟩
    cases call with
    | next => exact List.forall_mem_singleton.mpr separatedAs_next
    | tell inTypes => simp [Lexer.call]

/-- Whatever a lexer of a text is asked and told, in the numbers that it finds there is a digit of
their radix behind each run of underscores, and one in front of it, but in floating-point numbers
there may be the point, the letter or the sign of the exponent in front of it instead. -/
theorem separators_of_run (source : String) (calls : List Call) :
    ∀ token ∈ ((ofString source).run calls).1, token.kind.isNumber →
      RunsBetween
        (fun c => isDigit (literalRadix token.kind token.text.toList) c ∨
          token.kind.isFloating ∧ c ∈ ['.', 'e', 'E', '+', '-'])
        (fun c => isDigit (literalRadix token.kind token.text.toList) c) token.text.toList := by
  intro token among number before after more split begins ends
  obtain ⟨⟨c, last, known⟩, behind⟩ :=
    runsBetween_of_separated (separatedAs_run calls token among number) before after more split
      begins ends
  refine ⟨⟨c, last, known.imp_right fun mark => ?_⟩, behind⟩
  unfold marksOf at mark
  split at mark
  · next floats => exact ⟨floats, mark⟩
  · cases mark

/-- The two underscores in a hexadecimal integer are between digits. -/
theorem separators_in_hexadecimal : ∃ token ∈ ((ofString "0x1__F").run [.next]).1,
    token.kind = .intLiteral ∧ token.text = "0x1__F" ∧
      (∃ c ∈ ['0', 'x', '1'].getLast?,
        isDigit 16 c ∨ token.kind.isFloating ∧ c ∈ ['.', 'e', 'E', '+', '-']) ∧
      ∃ c ∈ ['F'].head?, isDigit 16 c := by
  let token : Token := ⟨.intLiteral, "0x1__F", .start, .int 31⟩
  have among : token ∈ ((ofString "0x1__F").run [.next]).1 := by decide
  have radix : literalRadix token.kind token.text.toList = 16 := by decide
  have runs := separators_of_run "0x1__F" [.next] token among rfl
  rw [radix] at runs
  exact ⟨token, among, rfl, rfl,
    runs ['0', 'x', '1'] ['F'] 1 (by decide) (by decide) (by decide)⟩

/-- There need be no digit in front of underscores: `1._5` is a number. -/
theorem separators_behind_point : ¬ ∀ (source : String) (calls : List Call),
    ∀ token ∈ ((ofString source).run calls).1, token.kind.isNumber →
      RunsBetween (fun c => isDigit (literalRadix token.kind token.text.toList) c)
        (fun c => isDigit (literalRadix token.kind token.text.toList) c) token.text.toList := by
  intro all
  let token : Token := ⟨.doubleLiteral, "1._5", .start, .double 0x3FF8000000000000⟩
  have among : token ∈ ((ofString "1._5").run [.next]).1 := by decide
  obtain ⟨⟨c, last, digit⟩, -⟩ := all "1._5" [.next] token among rfl ['1', '.'] ['5'] 0 (by decide)
    (by decide) (by decide)
  cases last
  cases digit

end Lexer

end JavaFrontend
