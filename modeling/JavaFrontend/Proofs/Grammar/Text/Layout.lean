import Mathlib.Data.List.TakeWhile
import JavaFrontend.Grammar.Text.Lexeme

/-!
How the symbols of a grammar text lie in it. A text that can be scanned is its symbols as they are
written, with gaps of blanks and comments around them, and any text that is made up so is scanned
into these symbols.
-/

namespace JavaFrontend.GrammarLexeme

/-! ### Symbols as they are written -/

/-- Letters, digits and underscores, of which a digit is not the first. -/
def IsIdentifier (text : String) : Prop :=
  ∃ first rest, text.toList = first :: rest ∧ isNameStart first ∧ ∀ c ∈ rest, isNamePart c

def isName : GrammarLexeme → Bool
  | .name _ => true
  | _ => false

/-- Whether there is a way to write the symbol: a name is an identifier, and a text in quotes is
not empty, on one line and without quotes. -/
def Proper : GrammarLexeme → Prop
  | .name text => IsIdentifier text
  | .quoted text => text.toList ≠ [] ∧ '\'' ∉ text.toList ∧ '\n' ∉ text.toList
  | _ => True

/-- The characters that a symbol is written with. -/
def written : GrammarLexeme → List Char
  | .name text => text.toList
  | .quoted text => '\'' :: (text.toList ++ ['\''])
  | .define => [':', ':', '=']
  | .bar => ['|']
  | .semicolon => [';']
  | .openOptional => ['[']
  | .closeOptional => [']']
  | .openRepeated => ['\x7b']
  | .closeRepeated => ['\x7d']

/-- Blanks and comments, each comment up to the end of its line. -/
inductive Gap : List Char → Prop where
  | nil : Gap []
  | blank {c : Char} {gap : List Char} : Unicode.isBlank c → Gap gap → Gap (c :: gap)
  | comment {line gap : List Char} : '\n' ∉ line → Gap gap → Gap ('#' :: (line ++ '\n' :: gap))

/-- The text is made up of the symbols in this order and gaps around them, behind a name or behind
something else. Two names have a gap between them that is not empty. The last line may be a
comment, which ends with the text. -/
inductive Follows : (behindName : Bool) → List GrammarLexeme → List Char → Prop where
  | nil {behindName : Bool} {gap : List Char} : Gap gap → Follows behindName [] gap
  | comment {behindName : Bool} {gap line : List Char} : Gap gap → '\n' ∉ line →
    Follows behindName [] (gap ++ '#' :: line)
  | cons {behindName : Bool} {gap text : List Char} {symbol : GrammarLexeme}
      {symbols : List GrammarLexeme} : Gap gap →
    (behindName → symbol.isName → gap ≠ []) → Follows symbol.isName symbols text →
    Follows behindName (symbol :: symbols) (gap ++ symbol.written ++ text)

/-- The text is made up of the symbols and gaps around them. -/
abbrev LaidOut (symbols : List GrammarLexeme) (text : List Char) : Prop :=
  Follows false symbols text

/-! ### Characters -/

variable {c : Char} {text : List Char} {symbol : GrammarLexeme} {symbols : List GrammarLexeme}

/-- No name goes on with the text. -/
def Ends (text : List Char) : Prop := ∀ c ∈ text.head?, isNamePart c = false

theorem Ends.of_false (behind : (false : Bool)) : Ends text := by cases behind

theorem isNamePart_of_isNameStart (start : isNameStart c) : isNamePart c := by
  simp only [isNameStart, isNamePart, Char.isAlphanum, Bool.or_eq_true] at start ⊢
  exact start.imp_left .inl

/-- The characters of names are letters, digits and the underscore of ASCII. -/
theorem toNat_of_isNamePart (part : isNamePart c) : (48 ≤ c.toNat ∧ c.toNat ≤ 57) ∨
    (65 ≤ c.toNat ∧ c.toNat ≤ 90) ∨ c.toNat = 95 ∨ (97 ≤ c.toNat ∧ c.toNat ≤ 122) := by
  change ((decide (65 ≤ c.val ∧ c.val ≤ 90) || 97 ≤ c.val && c.val ≤ 122) ||
    48 ≤ c.val && c.val ≤ 57 || c == '_') = true at part
  simp only [Bool.or_eq_true, Bool.and_eq_true, decide_eq_true_eq, beq_iff_eq,
    UInt32.le_iff_toNat_le] at part
  rcases part with ((upper | lower) | digit) | rfl
  · exact .inr (.inl upper)
  · exact .inr (.inr (.inr lower))
  · exact .inl digit
  · exact .inr (.inr (.inl rfl))

theorem isNamePart_of_isBlank (blank : Unicode.isBlank c) : isNamePart c = false := by
  refine Bool.eq_false_iff.mpr fun part => ?_
  have bounds := toNat_of_isNamePart part
  simp only [Unicode.isBlank, Unicode.inRanges, Unicode.blankRanges, List.any_cons, List.any_nil,
    Unicode.Range.contains, Bool.or_eq_true, Bool.and_eq_true, decide_eq_true_eq,
    Bool.or_false] at blank
  omega

/-- The characters that begin a symbol other than a name. -/
theorem ofChar?_eq_some_iff : ofChar? c = some symbol ↔
    symbol.written = [c] ∧ symbol.isName = false := by
  constructor
  · intro found
    unfold ofChar? at found
    split at found <;> cases found <;> exact ⟨rfl, rfl⟩
  · rintro ⟨single, other⟩
    cases symbol with
    | name text => cases other
    | quoted text => simp [written] at single
    | define => cases single
    | _ => cases single; rfl

theorem ofChar?_of_isNamePart (part : isNamePart c) : ofChar? c = none := by
  have bounds := toNat_of_isNamePart part
  unfold ofChar?
  split
  case h_7 => rfl
  all_goals simp at bounds

/-! ### Scanning a symbol -/

theorem takeWhile_append {p : Char → Bool} {run rest : List Char} (all : ∀ c ∈ run, p c)
    (stop : ∀ c ∈ rest.head?, p c = false) : (run ++ rest).takeWhile p = run := by
  rw [List.takeWhile_append_of_pos all]
  cases rest with
  | nil => simp
  | cons c rest => simp [stop c rfl]

theorem take_takeWhile (p : Char → Bool) (text : List Char) :
    text.take (text.takeWhile p).length = text.takeWhile p :=
  (List.prefix_iff_eq_take.mp (List.takeWhile_prefix p)).symm

theorem drop_takeWhile (p : Char → Bool) (text : List Char) :
    text.drop (text.takeWhile p).length = text.dropWhile p := by
  have whole := List.takeWhile_append_dropWhile (p := p) (l := text)
  calc text.drop (text.takeWhile p).length
      = (text.takeWhile p ++ text.dropWhile p).drop (text.takeWhile p).length := by rw [whole]
    _ = text.dropWhile p := List.drop_left

theorem quotedRest_eq_ok_iff {extra : Nat} : quotedRest text = .ok (symbol, extra) ↔
    ∃ inner rest, text = inner ++ '\'' :: rest ∧ (inner ≠ [] ∧ '\'' ∉ inner ∧ '\n' ∉ inner) ∧
      symbol = .quoted (String.ofList inner) ∧ extra = inner.length + 1 := by
  constructor
  · intro read
    unfold quotedRest at read
    dsimp only at read
    rw [drop_takeWhile] at read
    split at read
    · cases read
    split at read
    · cases read
    next closed filled =>
    cases read
    have whole := List.takeWhile_append_dropWhile (p := fun c => c != '\'' && c != '\n') (l := text)
    obtain ⟨rest, same⟩ : ∃ rest, text.dropWhile (fun c => c != '\'' && c != '\n') =
        '\'' :: rest := by
      cases left : text.dropWhile (fun c => c != '\'' && c != '\n') with
      | nil => simp [left] at closed
      | cons c rest => exact ⟨rest, by simpa [left] using closed⟩
    refine ⟨_, rest, (same ▸ whole).symm, ⟨fun none => filled (by simp [none]), ?_, ?_⟩, rfl, rfl⟩
    · exact fun member => by simpa using List.mem_takeWhile_imp member
    · exact fun member => by simpa using List.mem_takeWhile_imp member
  · rintro ⟨inner, rest, rfl, ⟨filled, noQuote, noLine⟩, rfl, rfl⟩
    have run : (inner ++ '\'' :: rest).takeWhile (fun c => c != '\'' && c != '\n') = inner := by
      refine takeWhile_append (fun c member => ?_) (fun c first => ?_)
      · have quote : c ≠ '\'' := fun same => noQuote (same ▸ member)
        have line : c ≠ '\n' := fun same => noLine (same ▸ member)
        simp [quote, line]
      · cases first
        rfl
    unfold quotedRest
    simp [run, filled]

/-- Whatever is scanned as a symbol is what the symbol is written with, and a name goes as far as
it can. -/
theorem written_of_scan {extra : Nat} (scanned : scan c text = .ok (symbol, extra)) :
    symbol.Proper ∧ symbol.written = c :: text.take extra ∧
      (symbol.isName → Ends (text.drop extra)) := by
  unfold scan at scanned
  split at scanned
  · next lexeme single =>
    cases scanned
    obtain ⟨written, other⟩ := ofChar?_eq_some_iff.mp single
    refine ⟨?_, by simpa using written, fun name => absurd (name.symm.trans other) nofun⟩
    unfold ofChar? at single
    split at single <;> cases single <;> trivial
  split at scanned
  · next colon =>
    split at scanned
    · next equal =>
      cases scanned
      obtain ⟨rest, rfl⟩ := List.isPrefixOf_iff_prefix.mp equal
      exact ⟨trivial, by simp [written, colon], nofun⟩
    · cases scanned
  split at scanned
  · next quote =>
    obtain ⟨inner, rest, rfl, proper, rfl, rfl⟩ := quotedRest_eq_ok_iff.mp scanned
    refine ⟨by simpa [Proper] using proper, ?_, nofun⟩
    rw [quote, List.append_cons, List.take_left' (by simp)]
    simp [written]
  split at scanned
  · next start =>
    cases scanned
    refine ⟨⟨c, text.takeWhile isNamePart, by simp, start, fun c => List.mem_takeWhile_imp⟩, ?_,
      fun _ => ?_⟩
    · rw [written, String.toList_ofList, take_takeWhile]
    · rw [drop_takeWhile]
      intro next first
      have stop := List.head?_dropWhile_not isNamePart text
      rw [Option.mem_def.mp first] at stop
      simpa using stop
  · cases scanned

/-- A symbol is scanned where it is written, if a name ends there. -/
theorem scan_written (proper : symbol.Proper) (ends : symbol.isName → Ends text) :
    ∃ first more, symbol.written = first :: more ∧ first ≠ '#' ∧ Unicode.isBlank first = false ∧
      scan first (more ++ text) = .ok (symbol, more.length) := by
  cases symbol with
  | name name =>
    obtain ⟨first, rest, same, start, parts⟩ := proper
    have part := isNamePart_of_isNameStart start
    have run : (rest ++ text).takeWhile isNamePart = rest := takeWhile_append parts (ends rfl)
    refine ⟨first, rest, same, ?_, ?_, ?_⟩
    · rintro rfl
      exact absurd part (by decide)
    · refine Bool.eq_false_iff.mpr fun blank => ?_
      rw [isNamePart_of_isBlank blank] at part
      cases part
    · have colon : first ≠ ':' := by
        rintro rfl
        exact absurd part (by decide)
      have quote : first ≠ '\'' := by
        rintro rfl
        exact absurd part (by decide)
      unfold scan
      simp only [ofChar?_of_isNamePart part, if_neg colon, if_neg quote, if_pos start, run]
      rw [← same, String.ofList_toList]
  | quoted inner =>
    refine ⟨'\'', _, rfl, by decide, by decide, ?_⟩
    have read : quotedRest (inner.toList ++ ['\''] ++ text) =
        .ok (.quoted inner, (inner.toList ++ ['\'']).length) :=
      quotedRest_eq_ok_iff.mpr ⟨inner.toList, text, by simp, proper, by simp, by simp⟩
    exact read
  | define => exact ⟨':', [':', '='], rfl, by decide, by decide, rfl⟩
  | _ => exact ⟨_, [], rfl, by decide, by decide, rfl⟩

/-! ### Scanning a text -/

variable {behindName : Bool} {gap : List Char} {line : Nat} {lexemes : List (GrammarLexeme × Nat)}

theorem Gap.ends_append (blanks : Gap gap) (some : gap ≠ []) : Ends (gap ++ text) := by
  intro c first
  cases blanks with
  | nil => exact absurd rfl some
  | blank blank _ =>
    cases first
    exact isNamePart_of_isBlank blank
  | comment _ _ =>
    cases first
    rfl

/-- A name does not go on in what follows it. -/
theorem Follows.ends (follows : Follows true symbols text) : Ends text := by
  cases follows with
  | nil blanks =>
    by_cases empty : text = []
    · subst empty
      exact nofun
    · have whole : Ends (text ++ []) := blanks.ends_append empty
      rwa [List.append_nil] at whole
  | @comment _ gap line blanks _ =>
    by_cases empty : gap = []
    · subst empty
      rintro c ⟨⟩
      rfl
    · exact blanks.ends_append empty
  | @cons _ gap text symbol symbols blanks apart _ =>
    rw [List.append_assoc]
    by_cases empty : gap = []
    · subst empty
      have other : symbol.isName = false := Bool.eq_false_iff.mpr fun name => apart rfl name rfl
      intro c first
      cases symbol with
      | name => cases other
      | _ =>
        cases first
        rfl
    · exact blanks.ends_append empty

theorem scanAll_blank (blank : Unicode.isBlank c) (line : Nat) (text : List Char) :
    ∃ later, scanAll line (c :: text) = scanAll later text := by
  have other : c ≠ '#' := by
    rintro rfl
    exact absurd blank (by decide)
  rw [scanAll, if_neg other, if_pos blank]
  exact ⟨_, rfl⟩

theorem scanAll_comment {inner : List Char} (inside : '\n' ∉ inner) :
    scanAll line ('#' :: (inner ++ '\n' :: text)) = scanAll (line + 1) text := by
  have rest : (inner ++ '\n' :: text).dropWhile (· != '\n') = '\n' :: text := by
    rw [List.dropWhile_append_of_pos fun c member => bne_iff_ne.mpr fun same => ?_]
    · rfl
    · exact inside (same ▸ member)
  rw [scanAll, if_pos rfl, rest, scanAll, if_neg (by decide), if_pos (by decide), if_pos rfl]

theorem scanAll_lastLine {inner : List Char} (inside : '\n' ∉ inner) :
    scanAll line ('#' :: inner) = .ok [] := by
  have rest : inner.dropWhile (· != '\n') = [] :=
    List.dropWhile_eq_nil_iff.mpr fun c member =>
      bne_iff_ne.mpr fun (same : c = '\n') => inside (same ▸ member)
  rw [scanAll, if_pos rfl, rest, scanAll]

theorem scanAll_gap (blanks : Gap gap) (line : Nat) (text : List Char) :
    ∃ later, scanAll line (gap ++ text) = scanAll later text := by
  induction blanks generalizing line with
  | nil => exact ⟨line, rfl⟩
  | blank blank _ ih =>
    obtain ⟨next, here⟩ := scanAll_blank blank line _
    obtain ⟨later, rest⟩ := ih next
    exact ⟨later, here.trans rest⟩
  | comment inside _ ih =>
    obtain ⟨later, rest⟩ := ih (line + 1)
    refine ⟨later, ?_⟩
    rw [List.cons_append, List.append_assoc, List.cons_append, scanAll_comment inside]
    exact rest

theorem scanAll_symbol (proper : symbol.Proper) (ends : symbol.isName → Ends text) :
    scanAll line (symbol.written ++ text) = (scanAll line text).map ((symbol, line) :: ·) := by
  obtain ⟨first, more, same, noComment, noBlank, scanned⟩ := scan_written proper ends
  rw [same, List.cons_append, scanAll, if_neg noComment, if_neg (by simp [noBlank]), scanned]
  dsimp only
  rw [List.drop_left]
  cases scanAll line text <;> rfl

/-- A text that is made up of symbols is scanned into them. -/
theorem Follows.scanned (follows : Follows behindName symbols text)
    (proper : ∀ symbol ∈ symbols, symbol.Proper) (line : Nat) :
    ∃ lexemes, scanAll line text = .ok lexemes ∧ lexemes.map (·.1) = symbols := by
  induction follows generalizing line with
  | nil blanks =>
    obtain ⟨later, same⟩ := scanAll_gap blanks line []
    rw [List.append_nil] at same
    exact ⟨[], by rw [same, scanAll], rfl⟩
  | @comment _ gap inner blanks inside =>
    obtain ⟨later, same⟩ := scanAll_gap blanks line ('#' :: inner)
    exact ⟨[], by rw [same, scanAll_lastLine inside], rfl⟩
  | @cons _ gap text symbol symbols blanks _ follows ih =>
    obtain ⟨here, later⟩ := List.forall_mem_cons.mp proper
    obtain ⟨next, same⟩ := scanAll_gap blanks line (symbol.written ++ text)
    obtain ⟨lexemes, scanned, rfl⟩ := ih later next
    have ends (name : symbol.isName) : Ends text := (name ▸ follows).ends
    refine ⟨(symbol, next) :: lexemes, ?_, rfl⟩
    rw [List.append_assoc, same, scanAll_symbol here ends, scanned]
    rfl

/-- What can stand after a gap can stand after a longer one. -/
theorem Follows.of_blank (blank : Unicode.isBlank c) (follows : Follows false symbols text) :
    Follows behindName symbols (c :: text) := by
  cases follows with
  | nil blanks => exact .nil (.blank blank blanks)
  | comment blanks inside => exact .comment (.blank blank blanks) inside
  | cons blanks _ follows => exact .cons (.blank blank blanks) (fun _ _ => nofun) follows

theorem Follows.of_comment {inner : List Char} (inside : '\n' ∉ inner)
    (follows : Follows false symbols text) :
    Follows behindName symbols ('#' :: (inner ++ '\n' :: text)) := by
  cases follows with
  | nil blanks => exact .nil (.comment inside blanks)
  | @comment _ gap line blanks last =>
    have whole : Follows behindName [] (('#' :: (inner ++ '\n' :: gap)) ++ '#' :: line) :=
      .comment (.comment inside blanks) last
    simpa using whole
  | @cons _ gap text symbol symbols blanks _ follows =>
    have whole : Follows behindName (symbol :: symbols)
        (('#' :: (inner ++ '\n' :: gap)) ++ symbol.written ++ text) :=
      .cons (.comment inside blanks) (fun _ _ => nofun) follows
    simpa using whole

/-- A symbol can stand in front of what can stand behind it. A name does not go on in it. -/
theorem Follows.of_symbol {extra : Nat} (proper : symbol.Proper)
    (written : symbol.written = c :: text.take extra) (ends : behindName → Ends (c :: text))
    (follows : Follows symbol.isName symbols (text.drop extra)) :
    Follows behindName (symbol :: symbols) (c :: text) := by
  -- a name goes as far as it can, so without a gap there is no other one behind it
  have apart (behind : behindName) (name : symbol.isName) : ([] : List Char) ≠ [] := by
    obtain ⟨first, rest, same, start, -⟩ :
        IsIdentifier (String.ofList (c :: text.take extra)) := by
      cases symbol with
      | name name =>
        rw [← written, GrammarLexeme.written, String.ofList_toList]
        exact proper
      | _ => cases name
    have goes := ends behind c rfl
    rw [String.toList_ofList] at same
    cases same
    rw [isNamePart_of_isNameStart start] at goes
    cases goes
  have whole : Follows behindName (symbol :: symbols)
      ([] ++ symbol.written ++ text.drop extra) := .cons .nil apart follows
  rwa [List.nil_append, written, List.cons_append, List.take_append_drop] at whole

/-- A text that is scanned is made up of its symbols. -/
theorem follows_of_scanAll (scanned : scanAll line text = .ok lexemes)
    (ends : behindName → Ends text) :
    Follows behindName (lexemes.map (·.1)) text ∧ ∀ lexeme ∈ lexemes, lexeme.1.Proper := by
  induction size : text.length using Nat.strongRecOn
    generalizing text line lexemes behindName with
  | ind size ih =>
  subst size
  cases text with
  | nil =>
    rw [scanAll] at scanned
    cases scanned
    exact ⟨.nil .nil, List.forall_mem_nil _⟩
  | cons c text =>
    by_cases hash : c = '#'
    · subst hash
      by_cases more : '\n' ∈ text
      · obtain ⟨inner, rest, rfl, inside⟩ := List.eq_append_cons_of_mem more
        rw [scanAll_comment inside] at scanned
        have shorter : rest.length < ('#' :: (inner ++ '\n' :: rest)).length := by
          simp only [List.length_cons, List.length_append]
          omega
        obtain ⟨follows, proper⟩ := ih _ shorter scanned Ends.of_false rfl
        exact ⟨follows.of_comment inside, proper⟩
      · rw [scanAll_lastLine more] at scanned
        cases scanned
        exact ⟨.comment .nil more, List.forall_mem_nil _⟩
    by_cases blank : Unicode.isBlank c
    · obtain ⟨later, same⟩ := scanAll_blank blank line text
      rw [same] at scanned
      obtain ⟨follows, proper⟩ :=
        ih _ (Nat.lt_succ_self text.length) scanned Ends.of_false rfl
      exact ⟨follows.of_blank blank, proper⟩
    rw [scanAll, if_neg hash, if_neg blank] at scanned
    split at scanned
    · cases scanned
    next symbol extra found =>
    obtain ⟨proper, written, stop⟩ := written_of_scan found
    cases rest : scanAll line (text.drop extra) with
    | error fault =>
      rw [rest] at scanned
      cases scanned
    | ok more =>
      rw [rest] at scanned
      cases scanned
      have shorter : (text.drop extra).length < (c :: text).length := by
        simp only [List.length_drop, List.length_cons]
        omega
      obtain ⟨follows, propers⟩ := ih _ shorter rest stop rfl
      exact ⟨follows.of_symbol proper written ends, List.forall_mem_cons.mpr ⟨proper, propers⟩⟩

end JavaFrontend.GrammarLexeme
