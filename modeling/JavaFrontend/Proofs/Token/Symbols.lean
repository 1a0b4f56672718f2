import JavaFrontend.Token.Lexer
import Mathlib.Data.List.Basic

/-!
Separators and operators are taken as long as they can be. The lexer decides on a symbol by looking
at one character after the other; what it takes is the first symbol at the head of the text in a
list of all of them where longer ones stand before shorter ones.
-/

namespace JavaFrontend

/-- Separators and operators. -/
def Kind.isSymbol (kind : Kind) : Bool := kind.isSeparator || kind.isOperator

theorem Kind.mem_fixed_of_isSymbol {kind : Kind} (symbol : kind.isSymbol) : kind ∈ fixed := by
  cases kind <;> first | exact absurd symbol (by decide) | decide

namespace Lexeme

/-- Separators and operators with the characters they are written with, longer ones first. -/
def symbols : List (List Char × Kind) :=
  let written := (Kind.fixed.filter Kind.isSymbol).map fun kind => (kind.text.toList, kind)
  [4, 3, 2, 1].flatMap fun length => written.filter (·.1.length == length)

/-- The longest symbol at the head of the text. -/
def symbol? (text : List Char) : Option (List Char × Kind) := symbols.find? (·.1.isPrefixOf text)

/-! ### The symbols that begin with a character -/

/-- The symbols that begin with a character, without that character. -/
def endings (c : Char) : List (List Char × Kind) :=
  symbols.filterMap fun entry =>
    if entry.1.head? = some c then some (entry.1.tail, entry.2) else none

theorem symbol?_cons (c : Char) (text : List Char) : symbol? (c :: text) =
    ((endings c).find? (·.1.isPrefixOf text)).map fun entry => (c :: entry.1, entry.2) := by
  have filled : ∀ entry ∈ symbols, entry.1 ≠ [] := by decide
  unfold symbol? endings
  generalize symbols = entries at filled ⊢
  induction entries with
  | nil => rfl
  | cons entry entries ih =>
    obtain ⟨here, later⟩ := List.forall_mem_cons.mp filled
    have rest := ih later
    obtain ⟨_ | ⟨first, more⟩, kind⟩ := entry
    · exact absurd rfl here
    · by_cases same : first = c
      · subst same
        by_cases fits : more.isPrefixOf text
        · simp [fits]
        · simpa [List.find?_cons, fits] using rest
      · simpa [List.find?_cons, same] using rest

/-- The endings that there are, by the characters they stand behind. -/
def table : List (Char × List (List Char × Kind)) := [
  ('(', [([], .leftParen)]), (')', [([], .rightParen)]), ('{', [([], .leftBrace)]),
  ('}', [([], .rightBrace)]), ('[', [([], .leftBracket)]), (']', [([], .rightBracket)]),
  (';', [([], .semicolon)]), (',', [([], .comma)]), ('@', [([], .at)]), ('?', [([], .question)]),
  ('~', [([], .tilde)]), ('.', [(['.', '.'], .ellipsis), ([], .dot)]),
  (':', [([':'], .doubleColon), ([], .colon)]), ('=', [(['='], .equalEqual), ([], .assign)]),
  ('!', [(['='], .notEqual), ([], .bang)]), ('*', [(['='], .starAssign), ([], .star)]),
  ('/', [(['='], .slashAssign), ([], .slash)]), ('%', [(['='], .percentAssign), ([], .percent)]),
  ('^', [(['='], .caretAssign), ([], .caret)]),
  ('&', [(['&'], .andAnd), (['='], .ampersandAssign), ([], .ampersand)]),
  ('|', [(['|'], .orOr), (['='], .barAssign), ([], .bar)]),
  ('+', [(['+'], .increment), (['='], .plusAssign), ([], .plus)]),
  ('-', [(['>'], .arrow), (['-'], .decrement), (['='], .minusAssign), ([], .minus)]),
  ('<', [(['<', '='], .leftShiftAssign), (['='], .lessEqual), (['<'], .leftShift), ([], .less)]),
  ('>', [(['>', '>', '='], .unsignedShiftAssign), (['>', '>'], .unsignedShift),
    (['>', '='], .rightShiftAssign), (['='], .greaterEqual), (['>'], .rightShift), ([], .greater)])]

theorem endings_eq (c : Char) : endings c = (table.lookup c).getD [] := by
  cases found : table.lookup c with
  | some written =>
    have all : ∀ entry ∈ table, endings entry.1 == entry.2 := by decide
    obtain ⟨before, after, listed, -⟩ := List.lookup_eq_some_iff.mp found
    exact beq_iff_eq.mp (all (c, written) (listed ▸ List.mem_append_right _ List.mem_cons_self))
  | none =>
    have all : ∀ entry ∈ symbols, entry.1.head?.any fun d => (table.lookup d).isSome := by
      decide
    refine List.filterMap_eq_nil_iff.mpr fun entry member => if_neg fun same => ?_
    have listed := all entry member
    rw [same, Option.any_some, found] at listed
    cases listed

/-! ### What the lexer decides on -/

/-- The longest of some endings at the head of the text. -/
def longest? (entries : List (List Char × Kind)) (text : List Char) : Option Lexeme :=
  (entries.find? (·.1.isPrefixOf text)).map fun entry => plain entry.1.length entry.2

variable {c : Char} {text : List Char} {kind : Kind}

theorem isPrefixOf_single (c : Char) (text : List Char) :
    [c].isPrefixOf text = decide (text.head? = some c) := by
  cases text with
  | nil => rfl
  | cons d text =>
    rw [List.isPrefixOf_cons_cons, List.isPrefixOf_nil_left, Bool.and_true, List.head?_cons]
    simp [beq_eq_decide, eq_comm]

theorem isPrefixOf_cons_of_ne (other : text.head? ≠ some c) (more : List Char) :
    (c :: more).isPrefixOf text = false := by
  cases text with
  | nil => rfl
  | cons d text =>
    have same : c ≠ d := fun same => other (congrArg some same.symm)
    rw [List.isPrefixOf_cons_cons, beq_false_of_ne same, Bool.false_and]

theorem longest?_cons (more : List Char) (kind : Kind) (entries : List (List Char × Kind))
    (text : List Char) : longest? ((more, kind) :: entries) text =
      if more.isPrefixOf text then some (plain more.length kind) else longest? entries text := by
  by_cases fits : more.isPrefixOf text
  · simp [longest?, fits]
  · simp [longest?, fits]

/-- What takes no character more stands behind every character. -/
theorem longest?_nil (kind : Kind) (text : List Char) :
    longest? [([], kind)] text = some (plain 0 kind) := rfl

theorem longest?_pick (c : Char) (longer shorter : Kind) (text : List Char) :
    longest? [([c], longer), ([], shorter)] text = some (pick 0 c longer shorter text) := by
  by_cases next : text.head? = some c <;> simp [longest?_cons, isPrefixOf_single, pick, next]

theorem longest?_doubled (c : Char) (doubled longer shorter : Kind) (text : List Char) :
    longest? [([c], doubled), (['='], longer), ([], shorter)] text =
      some (if text.head? = some c then plain 1 doubled else pick 0 '=' longer shorter text) := by
  rw [longest?_cons, longest?_pick, isPrefixOf_single]
  by_cases next : text.head? = some c <;> simp [next]

theorem longest?_dots (longer shorter : Kind) (text : List Char) :
    longest? [(['.', '.'], longer), ([], shorter)] text =
      some (if ['.', '.'].isPrefixOf text then plain 2 longer else plain 0 shorter) := by
  rw [longest?_cons, longest?_nil, apply_ite some]
  rfl

/-- An arrow is as long as a decrement, so either may be looked for first. -/
theorem longest?_minus (text : List Char) :
    longest? [(['>'], .arrow), (['-'], .decrement), (['='], .minusAssign), ([], .minus)] text =
      some (if text.head? = some '-' then plain 1 .decrement
        else if text.head? = some '>' then plain 1 .arrow
        else pick 0 '=' .minusAssign .minus text) := by
  rw [longest?_cons, longest?_doubled, isPrefixOf_single]
  by_cases next : text.head? = some '>' <;> simp [next]

theorem longest?_openAngles (text : List Char) :
    longest? [(['<', '='], .leftShiftAssign), (['='], .lessEqual), (['<'], .leftShift),
      ([], .less)] text = some (openAngles text) := by
  fun_cases openAngles text with
  | case1 text =>
    by_cases next : text.head? = some '=' <;> simp [longest?_cons, isPrefixOf_single, pick, next]
  | case2 text other =>
    have single : text.head? ≠ some '<' := fun same =>
      (List.head?_eq_some_iff.mp same).elim other
    by_cases next : text.head? = some '=' <;>
      simp [longest?_cons, isPrefixOf_single, isPrefixOf_cons_of_ne single, pick, next]

theorem longest?_closeAngles (text : List Char) :
    longest? [(['>', '>', '='], .unsignedShiftAssign), (['>', '>'], .unsignedShift),
      (['>', '='], .rightShiftAssign), (['='], .greaterEqual), (['>'], .rightShift),
      ([], .greater)] text = some (closeAngles text) := by
  fun_cases closeAngles text with
  | case1 text =>
    by_cases next : text.head? = some '=' <;> simp [longest?_cons, isPrefixOf_single, pick, next]
  | case2 text other =>
    have double : text.head? ≠ some '>' := fun same =>
      (List.head?_eq_some_iff.mp same).elim other
    by_cases next : text.head? = some '=' <;>
      simp [longest?_cons, isPrefixOf_single, isPrefixOf_cons_of_ne double, pick, next]
  | case3 text _ other =>
    have single : text.head? ≠ some '>' := fun same =>
      (List.head?_eq_some_iff.mp same).elim other
    by_cases next : text.head? = some '=' <;>
      simp [longest?_cons, isPrefixOf_single, isPrefixOf_cons_of_ne single, pick, next]

theorem symbol_eq_longest? (c : Char) (text : List Char) : symbol false c text =
    (longest? (endings c) text).getD (fault 0 (.unexpectedChar c)) := by
  rw [endings_eq]
  unfold symbol
  split
  case h_26 =>
    have unlisted : table.lookup c = none := by
      rw [List.lookup_eq_none_iff]
      simp_all [table]
    rw [unlisted]
    rfl
  all_goals
    simp only [table, List.lookup_cons, Char.reduceBEq, Option.getD_some, longest?_nil, longest?_pick,
      longest?_doubled, longest?_dots, longest?_minus, longest?_openAngles, longest?_closeAngles,
      Bool.false_eq_true, if_false]

/-- The lexer takes the longest symbol at the head of the text, but where type arguments may close
a single `>`. -/
theorem symbol_eq (inTypes : Bool) (c : Char) (text : List Char) :
    symbol inTypes c text =
      if inTypes && c == '>' then plain 0 .greater
      else
        match symbol? (c :: text) with
        | some (written, kind) => plain (written.length - 1) kind
        | none => fault 0 (.unexpectedChar c) := by
  by_cases single : inTypes && c == '>'
  · rw [if_pos single]
    obtain ⟨rfl, rfl⟩ : inTypes = true ∧ c = '>' := by simpa using single
    rfl
  · have untold : symbol inTypes c text = symbol false c text := by
      cases inTypes with
      | false => rfl
      | true =>
        have other : c ≠ '>' := by simpa using single
        unfold symbol
        split
        case h_21 => exact absurd rfl other
        all_goals rfl
    rw [if_neg single, untold, symbol_eq_longest?, symbol?_cons, longest?]
    cases (endings c).find? (·.1.isPrefixOf text) <;> rfl

/-! ### The longest symbol -/

theorem mem_symbols {entry : List Char × Kind} : entry ∈ symbols ↔
    entry.2.isSymbol ∧ entry.1 = entry.2.text.toList := by
  constructor
  · intro member
    obtain ⟨length, -, among⟩ := List.mem_flatMap.mp member
    obtain ⟨kind, listed, rfl⟩ := List.mem_map.mp (List.mem_filter.mp among).1
    exact ⟨(List.mem_filter.mp listed).2, rfl⟩
  · rintro ⟨symbol, spelled⟩
    obtain ⟨written, kind⟩ := entry
    dsimp only at symbol spelled
    subst spelled
    have short : Kind.fixed.all fun kind =>
        !kind.isSymbol || [4, 3, 2, 1].contains kind.text.toList.length := by decide
    have fixed := Kind.mem_fixed_of_isSymbol symbol
    have length : kind.text.toList.length ∈ [4, 3, 2, 1] := by
      simpa [symbol] using List.all_eq_true.mp short kind fixed
    refine List.mem_flatMap.mpr ⟨_, length, List.mem_filter.mpr ⟨?_, beq_self_eq_true _⟩⟩
    exact List.mem_map.mpr ⟨kind, List.mem_filter.mpr ⟨fixed, symbol⟩, rfl⟩

/-- What is found is a symbol at the head of the text, and none there is longer. -/
theorem longest_of_symbol? {written : List Char} (found : symbol? text = some (written, kind)) :
    kind.isSymbol ∧ written = kind.text.toList ∧ written <+: text ∧
      ∀ other : Kind, other.isSymbol → other.text.toList <+: text →
        other.text.toList.length ≤ written.length := by
  have ordered : symbols.Pairwise fun longer shorter => shorter.1.length ≤ longer.1.length := by
    decide
  obtain ⟨begins, before, after, split, longer⟩ := List.find?_eq_some_iff_append.mp found
  obtain ⟨symbol, spelled⟩ := mem_symbols.mp
    (split ▸ List.mem_append_right _ List.mem_cons_self : (written, kind) ∈ symbols)
  refine ⟨symbol, spelled, List.isPrefixOf_iff_prefix.mp begins, fun other known first => ?_⟩
  have listed : (other.text.toList, other) ∈ symbols := mem_symbols.mpr ⟨known, rfl⟩
  rw [split] at listed ordered
  rcases List.mem_append.mp listed with earlier | later
  · have none := longer _ earlier
    rw [List.isPrefixOf_iff_prefix.mpr first] at none
    cases none
  · rcases List.mem_cons.mp later with same | later
    · exact Nat.le_of_eq (congrArg (·.1.length) same)
    · exact (List.pairwise_cons.mp (List.pairwise_append.mp ordered).2.1).1 _ later

/-- One is found if the text begins with any. -/
theorem isSome_symbol? {other : Kind} (known : other.isSymbol)
    (first : other.text.toList <+: text) : (symbol? text).isSome :=
  List.find?_isSome.mpr ⟨(other.text.toList, other), mem_symbols.mpr ⟨known, rfl⟩,
    List.isPrefixOf_iff_prefix.mpr first⟩

/-! ### What is scanned as a symbol -/

/-- The characters that symbols begin with. -/
def firsts : List Char := table.map (·.1)

theorem mem_firsts (symbol : kind.isSymbol) (first : kind.text.toList.head? = some c) :
    c ∈ firsts := by
  have all : ∀ entry ∈ symbols, entry.1.head?.any firsts.contains := by decide
  have listed := all (kind.text.toList, kind) (mem_symbols.mpr ⟨symbol, rfl⟩)
  rw [first] at listed
  exact List.contains_iff_mem.mp listed

/-- No symbol begins with any other. -/
theorem symbol_eq_fault (other : c ∉ firsts) (inTypes : Bool) (text : List Char) :
    symbol inTypes c text = fault 0 (.unexpectedChar c) := by
  have unlisted : table.lookup c = none :=
    List.lookup_eq_none_iff.mpr fun entry member => bne_iff_ne.mpr fun same =>
      other (List.mem_map.mpr ⟨entry, member, same.symm⟩)
  have single : ¬ (inTypes && c == '>') := by
    rintro both
    obtain ⟨-, rfl⟩ : inTypes = true ∧ c = '>' := by simpa using both
    exact other (by decide)
  rw [symbol_eq, if_neg single, symbol?_cons, endings_eq, unlisted]
  rfl

/-- Each of them is a symbol of its own. -/
theorem isSome_of_mem_firsts (first : c ∈ firsts) (text : List Char) :
    (symbol? (c :: text)).isSome := by
  have all : firsts.all fun c => Kind.fixed.any fun kind =>
      kind.isSymbol && kind.text.toList == [c] := by
    decide
  obtain ⟨kind, -, alone⟩ := List.any_eq_true.mp (List.all_eq_true.mp all c first)
  obtain ⟨symbol, spelled⟩ := Bool.and_eq_true_iff.mp alone
  exact isSome_symbol? symbol (beq_iff_eq.mp spelled ▸ ⟨text, rfl⟩)

theorem comment?_eq_none (comment : text.head? ≠ some '/' ∧ text.head? ≠ some '*') :
    comment? text = none := by
  unfold comment?
  split
  · exact absurd rfl comment.1
  · exact absurd rfl comment.2
  · rfl

/-- What begins as a symbol is one, but for comments and fractions. -/
theorem scan_eq_symbol (first : c ∈ firsts)
    (comment : c = '/' → text.head? ≠ some '/' ∧ text.head? ≠ some '*')
    (fraction : c = '.' → text.head?.any (Digits.isDigit 10) = false) (inTypes : Bool) :
    scan inTypes c text = symbol inTypes c text := by
  have all : firsts.all fun c => !isBlank c && !Digits.isDigit 10 c && !isIdentifierStart c &&
      !(['\n', '\r', '\x1a', '\'', '"'].contains c) := by
    decide +kernel
  obtain ⟨⟨⟨blank, digit⟩, start⟩, feed, carriage, substitute, quote, quotes⟩ := by
    simpa using List.all_eq_true.mp all c first
  have whole : (c = '.' && text.head?.any (Digits.isDigit 10)) = false := by
    by_cases dot : c = '.'
    · simp [fraction dot]
    · simp [dot]
  simp only [scan, blank, digit, start, whole, feed, carriage, substitute, quote, quotes,
    Bool.false_eq_true, if_false]
  split
  · next slash => rw [comment?_eq_none (comment slash), Option.getD_none]
  · rfl

/-- A symbol takes what it is spelled with, and goes on as long as it can. -/
theorem symbol_longest (first : c ∈ firsts) (inTypes : Bool) (text : List Char) :
    ∃ kind more left, kind.isSymbol ∧ kind.text.toList = c :: more ∧ text = more ++ left ∧
      symbol inTypes c text = plain more.length kind ∧
      if inTypes ∧ c = '>' then kind = .greater
      else ∀ other : Kind, other.isSymbol → other.text.toList <+: c :: text →
        other.text.toList.length ≤ kind.text.toList.length := by
  by_cases single : inTypes ∧ c = '>'
  · obtain ⟨rfl, rfl⟩ := single
    exact ⟨.greater, [], text, by decide, by decide, rfl, rfl, by simp⟩
  · obtain ⟨⟨written, kind⟩, found⟩ :=
      Option.isSome_iff_exists.mp (isSome_of_mem_firsts first text)
    obtain ⟨symbol, rfl, ⟨left, whole⟩, longest⟩ := longest_of_symbol? found
    have filled : ∀ kind ∈ Kind.fixed, kind.text.toList ≠ [] := by decide
    obtain ⟨d, more, spelled⟩ :=
      List.exists_cons_of_ne_nil (filled kind (Kind.mem_fixed_of_isSymbol symbol))
    rw [spelled] at whole
    obtain ⟨rfl, rfl⟩ := List.cons.inj whole
    have alone : ¬ (inTypes && d == '>') := by simpa using single
    refine ⟨kind, more, left, symbol, spelled, rfl, ?_, ?_⟩
    · rw [symbol_eq, if_neg alone, found]
      simp [spelled]
    · rwa [if_neg single]

end Lexeme

/-! ### The next token -/

/-- Characters that end no line take one column each. -/
theorem Position.advance_inLine (position : Position) {passed : List Char}
    (inLine : ∀ c ∈ passed, c ≠ '\n' ∧ c ≠ '\r') (following : List Char) :
    position.advance passed following = position.shift passed.length := by
  induction passed generalizing position with
  | nil => rfl
  | cons c passed ih =>
    obtain ⟨here, later⟩ := List.forall_mem_cons.mp inLine
    rw [advance, ih _ later, after, if_neg here.1, if_neg (by simp [here.2])]
    simp only [shift, List.length_cons, Nat.add_right_comm, Nat.add_assoc]

namespace Lexer

/-- A text that begins as a separator or an operator does, and not as a comment or a fraction: what
comes first is the longest of them at its head, but where type arguments may close, of a text that
begins with `>` it is that character alone. -/
theorem next_longest_symbol {c : Char} {text : List Char} (position : Position) (inTypes : Bool)
    (begins : ∃ kind : Kind, kind.isSymbol ∧ kind.text.toList.head? = some c)
    (comment : ¬ ['/', '/'] <+: c :: text ∧ ¬ ['/', '*'] <+: c :: text)
    (fraction : ∀ d, Digits.isDigit 10 d → ¬ ['.', d] <+: c :: text) :
    ∃ kind left, kind.isSymbol ∧ c :: text = kind.text.toList ++ left ∧
      next ⟨c :: text, position, inTypes⟩ =
        ({ kind, text := kind.text, position },
          ⟨left, position.shift kind.text.toList.length, inTypes⟩) ∧
      if inTypes ∧ c = '>' then kind = .greater
      else ∀ other : Kind, other.isSymbol → other.text.toList <+: c :: text →
        other.text.toList.length ≤ kind.text.toList.length := by
  obtain ⟨begun, known, head⟩ := begins
  have first := Lexeme.mem_firsts known head
  obtain ⟨kind, more, left, symbol, spelled, rfl, taken, longest⟩ :=
    Lexeme.symbol_longest first inTypes text
  have scanned : Lexeme.scan inTypes c (more ++ left) = .plain more.length kind := by
    rw [Lexeme.scan_eq_symbol first, taken]
    · rintro rfl
      constructor <;> intro next <;> obtain ⟨behind, same⟩ := List.head?_eq_some_iff.mp next
      · exact comment.1 ⟨behind, by simp [same]⟩
      · exact comment.2 ⟨behind, by simp [same]⟩
    · rintro rfl
      refine Bool.eq_false_iff.mpr fun digit => ?_
      obtain ⟨d, next, digit⟩ := (Option.any_eq_true _ _).mp digit
      obtain ⟨behind, same⟩ := List.head?_eq_some_iff.mp next
      exact fraction d digit ⟨behind, by simp [same]⟩
  have all : Kind.fixed.all fun kind => kind.text.toList.all fun d => d != '\n' && d != '\r' := by
    decide
  have inLine : ∀ d ∈ kind.text.toList, d ≠ '\n' ∧ d ≠ '\r' := by
    simpa using List.all_eq_true.mp all kind (Kind.mem_fixed_of_isSymbol symbol)
  have written : String.ofList (c :: more) = kind.text := by
    rw [← spelled, String.ofList_toList]
  refine ⟨kind, left, symbol, by rw [spelled]; rfl, ?_, longest⟩
  unfold next
  simp only [scanned, Lexeme.plain, List.take_left, List.drop_left, written]
  rw [← spelled, Position.advance_inLine _ inLine]

/-- In `>>>=1` no symbol at the head is longer than what is taken. -/
theorem longest_in_shift :
    ∃ kind left, kind.isSymbol ∧ '>' :: ">>=1".toList = kind.text.toList ++ left ∧
      next ⟨'>' :: ">>=1".toList, .start, false⟩ =
        ({ kind, text := kind.text, position := .start },
          ⟨left, Position.start.shift kind.text.toList.length, false⟩) ∧
      if false ∧ '>' = '>' then kind = .greater
      else ∀ other : Kind, other.isSymbol → other.text.toList <+: '>' :: ">>=1".toList →
        other.text.toList.length ≤ kind.text.toList.length :=
  next_longest_symbol .start false ⟨.greater, by decide, by decide⟩
    ⟨by decide, by decide⟩
    fun _ _ dot => absurd (List.cons_prefix_cons.mp dot).1 (by decide)


end Lexer

end JavaFrontend
