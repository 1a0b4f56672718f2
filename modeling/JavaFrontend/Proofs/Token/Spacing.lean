import JavaFrontend.Proofs.Token.Layout

/-!
The next significant token of a text, and of another text that has the same characters up to the end
of that token and goes on as it may behind it: it is the same token, at the place where its
characters are.
-/

namespace JavaFrontend

open Lexeme (scan Follows Stays)

namespace Lexeme

variable {c : Char} {text : List Char} {inTypes : Bool} {found : Kind × TokenValue}

theorem Valued.isSymbol {lexeme : Lexeme} (valued : lexeme.Valued)
    (ok : lexeme.outcome = .ok found) : found.1.isSymbol = false := by
  cases valued with
  | @literal extra kind value same =>
    cases ok
    cases value <;> cases same <;> rfl
  | fault => cases ok

theorem isSymbol_wordKind (word : String) : (wordKind word).isSymbol = false := by
  have all : ∀ kind ∈ Kind.fixed, (kind.isKeyword || kind.isLiteral) →
      kind.isSymbol = false := by decide
  unfold wordKind
  split
  · next kind known =>
    split
    · next named => exact all kind (List.mem_of_find?_eq_some known) named
    · rfl
  · rfl

/-- Separators and operators are scanned in no other way. -/
theorem scan_eq_symbol_of_ok (ok : (scan inTypes c text).outcome = .ok found)
    (isSymbol : found.1.isSymbol) : scan inTypes c text = symbol inTypes c text := by
  have other {bare : Prop} (none : found.1.isSymbol = false) : bare := by
    rw [none] at isSymbol
    cases isSymbol
  have apart (trivia : found.1.isTrivia) : found.1.isSymbol = false := by
    revert trivia
    cases found.1 <;> decide
  have scans := scans inTypes c text
  generalize scan inTypes c text = lexeme at ok scans ⊢
  cases scans with
  | blank extra trivia =>
    cases ok
    exact other (apart trivia)
  | character => exact other ((valued_charLiteral ..).isSymbol ok)
  | string => exact other ((valued_stringRest ..).isSymbol ok)
  | number => exact other ((valued_numeric ..).isSymbol ok)
  | word =>
    cases ok
    exact other (isSymbol_wordKind _)
  | fraction => exact other ((valued_fractionPart ..).isSymbol ok)
  | comment comment => exact other (apart (takes_comment comment ok).1)
  | symbol => rfl

/-- What is found as one of them is written as it is. -/
theorem written_of_ok (ok : (scan inTypes c text).outcome = .ok found)
    (isSymbol : found.1.isSymbol) : ∃ more left, text = more ++ left ∧
      found.1.text.toList = c :: more ∧ scan inTypes c text = plain more.length found.1 := by
  have scanned := scan_eq_symbol_of_ok ok isSymbol
  have first : c ∈ firsts := by
    by_contra other
    rw [scanned, symbol_eq_fault other] at ok
    cases ok
  obtain ⟨kind, more, left, -, written, rfl, taken, -⟩ := symbol_longest first inTypes text
  rw [scanned, taken] at ok ⊢
  cases ok
  exact ⟨more, left, rfl, written, rfl⟩

/-- A shift begins with `>`. -/
theorem eq_of_shift (ok : (scan inTypes c text).outcome = .ok found)
    (shift : found.1.isRightShift) : c = '>' := by
  have either : found.1 = .rightShift ∨ found.1 = .unsignedShift := by
    revert shift
    cases found.1 <;> simp [Kind.isRightShift]
  have spelled : found.1.text.toList.head? = some '>' := by
    rcases either with same | same <;> rw [same] <;> decide +kernel
  obtain ⟨more, left, -, written, -⟩ :=
    written_of_ok ok (by rcases either with same | same <;> rw [same] <;> rfl)
  rw [written] at spelled
  exact Option.some.inj spelled

end Lexeme

/-! ### One token in two texts -/

namespace TokenSource

open Lexer (passing tokenOf next_passing)

variable {source : List Char} {k : Nat} {told : Bool}

/-- The next significant token of the text behind a gap, and what becomes of it in other texts. -/
structure Finds (source : List Char) (k : Nat) (told : Bool) (gap word rest : List Char)
    (token : Token) : Prop where
  here : source.drop k = gap ++ (word ++ rest)
  found : after source k told =
    (token, .text (passing source (k + (gap.length + word.length)) told))
  position : token.position = .behind source (k + gap.length)
  written : token.text.toList = word
  /-- Only the end mark is not written. -/
  ended : (word = [] ↔ token.kind = .endOfInput) ∧ (word = [] → rest = [])
  shift : token.kind.isRightShift → token.text = token.kind.text
  /-- Another text that has the same characters from some place on, and goes on as it may behind
  the token, has the same token. -/
  stays : ∀ (text : List Char) (place : Nat) (other : List Char),
    text.drop place = gap ++ (word ++ other) →
    other = rest ∨ word ≠ [] ∧ token.error? = none ∧ Follows token.kind word rest other →
    after text place told = ({ token with position := .behind text (place + gap.length) },
      .text (passing text (place + (gap.length + word.length)) told))

theorem tokenOf_congr {c : Char} {text other : List Char} (position : Position)
    {place : Position} {lexeme : Lexeme} (same : other.take lexeme.extra = text.take lexeme.extra) :
    tokenOf c other place lexeme = { tokenOf c text position lexeme with position := place } := by
  unfold tokenOf
  rw [same]
  split <;> rfl

theorem ok_of_clean {c : Char} {text : List Char} {position : Position} {lexeme : Lexeme}
    (clean : (tokenOf c text position lexeme).error? = none) :
    ∃ found, lexeme.outcome = .ok found ∧
      (tokenOf c text position lexeme).kind = found.1 := by
  unfold tokenOf at clean ⊢
  split at clean
  · next kind value ok => exact ⟨_, ok, by simp⟩
  · cases clean

/-- A shift is written as its kind says. -/
theorem text_of_shift {c : Char} {text : List Char} {position : Position}
    (shift : (tokenOf c text position (scan told c text)).kind.isRightShift) :
    (tokenOf c text position (scan told c text)).text =
      (tokenOf c text position (scan told c text)).kind.text := by
  unfold tokenOf at shift ⊢
  split at shift
  · next kind value ok =>
    obtain rfl := Lexeme.eq_of_shift ok shift
    rw [Lexeme.scan_joint rfl] at ok ⊢
    cases told with
    | true =>
      cases ok
      cases shift
    | false =>
      obtain ⟨kind, more, left, rfl, spelled, -, -, found⟩ :=
        Lexeme.symbol_joint (c := '>') rfl text
      rw [found] at ok ⊢
      cases ok
      rw [Lexeme.plain, List.take_left, ← spelled, String.ofList_toList]
  · cases shift

theorem after_significant {c : Char} {text : List Char} (here : source.drop k = c :: text)
    (significant : (tokenOf c text (.behind source k) (scan told c text)).kind.isTrivia = false) :
    after source k told = (tokenOf c text (.behind source k) (scan told c text),
      .text (passing source (k + ((text.take (scan told c text).extra).length + 1)) told)) := by
  rw [after, nextSignificant, if_neg]
  · rw [next, next_passing here]
  · rw [next, next_passing here, significant]
    simp

theorem after_end (none : source.drop k = []) : after source k told =
    (.endOfInput (.behind source k), .text (passing source k told)) := by
  rw [after, nextSignificant, if_neg (by simp [hasMore, Lexer.hasMore, passing, none]), next,
    Lexer.next, passing, none]

theorem finds_end (none : source.drop k = []) :
    Finds source k told [] [] [] (.endOfInput (.behind source k)) where
  here := none
  found := after_end none
  position := rfl
  written := rfl
  ended := ⟨by simp [Token.endOfInput], fun _ => rfl⟩
  shift := nofun
  stays text place other there fits := by
    obtain rfl := fits.resolve_right fun some => some.1 rfl
    exact after_end there

/-- Trivia in front of the token is part of the gap. -/
theorem Finds.behind {c : Char} {text gap word rest : List Char} {token : Token}
    {found : Kind × TokenValue} (here : source.drop k = c :: text)
    (ok : (scan told c text).outcome = .ok found) (trivia : found.1.isTrivia)
    (finds : Finds source (k + ((text.take (scan told c text).extra).length + 1)) told gap word rest
      token) :
    Finds source k told (c :: text.take (scan told c text).extra ++ gap) word rest token := by
  obtain ⟨taken, left, rfl, length, same⟩ := Lexeme.scan_stays ok
  rw [trivia] at same
  have short : (taken ++ left).take (scan told c (taken ++ left)).extra = taken := by
    rw [length, List.take_left]
  rw [short] at finds ⊢
  have behind : source.drop (k + (taken.length + 1)) = left := by
    rw [← List.drop_drop, here, ← List.cons_append, ← List.length_cons, List.drop_left]
  have split := behind.symm.trans finds.here
  have further (place : Nat) : place + (taken.length + 1) + gap.length =
      place + (c :: taken ++ gap).length := by
    simp only [List.cons_append, List.length_cons, List.length_append]
    omega
  have past (place : Nat) : place + (taken.length + 1) + (gap.length + word.length) =
      place + ((c :: taken ++ gap).length + word.length) := by
    simp only [List.cons_append, List.length_cons, List.length_append]
    omega
  refine ⟨?_, ?_, ?_, finds.written, finds.ended, finds.shift,
    fun text place other there fits => ?_⟩
  · rw [here, split]
    simp
  · rw [after_trivia here ok trivia, short, finds.found, past]
  · rw [finds.position, further]
  · have head : Lexeme.SameHead left (gap ++ (word ++ other)) := by
      rw [split]
      by_cases none : gap ++ word = []
      · obtain ⟨rfl, rfl⟩ := List.append_eq_nil_iff.mp none
        obtain rfl := fits.resolve_right fun some => some.1 rfl
        rfl
      · rw [← List.append_assoc, ← List.append_assoc]
        exact Lexeme.head?_append none
    have scanned := same (gap ++ (word ++ other)) head
    have there' : text.drop place = c :: (taken ++ (gap ++ (word ++ other))) := by
      rw [there]
      simp
    have rest : text.drop (place + (taken.length + 1)) = gap ++ (word ++ other) := by
      rw [← List.drop_drop, there', ← List.cons_append, ← List.length_cons, List.drop_left]
    rw [after_trivia there' (scanned ▸ ok) trivia, scanned, length, List.take_left,
      finds.stays text _ other rest fits, further, past]

/-- A token that is no trivia stands at the head of what is left. -/
theorem finds_significant {c : Char} {text : List Char} (here : source.drop k = c :: text)
    (significant : (tokenOf c text (.behind source k) (scan told c text)).kind.isTrivia = false) :
    Finds source k told [] (c :: text.take (scan told c text).extra)
      (text.drop (scan told c text).extra)
      (tokenOf c text (.behind source k) (scan told c text)) := by
  have sound := (passing source k told).sound_next.2
  rw [next_passing here, show (passing source k told).text = c :: text from here] at sound
  refine ⟨?_, ?_, ?_, ?_, ⟨?_, nofun⟩, text_of_shift,
    fun other place behind there fits => ?_⟩
  · rw [here, List.nil_append, List.cons_append, List.take_append_drop]
  · rw [after_significant here significant]
    simp
  · unfold tokenOf
    split <;> rfl
  · unfold tokenOf
    split <;> exact String.toList_ofList
  · simpa using sound
  · have same : scan told c (text.take (scan told c text).extra ++ behind) = scan told c text ∧
        (text.take (scan told c text).extra ++ behind).take (scan told c text).extra =
          text.take (scan told c text).extra := by
      rcases fits with rfl | ⟨-, clean, follows⟩
      · rw [List.take_append_drop]
        exact ⟨rfl, rfl⟩
      · obtain ⟨found, ok, kind⟩ := ok_of_clean clean
        rw [kind] at significant follows
        obtain ⟨taken, left, rfl, length, stays⟩ := Lexeme.scan_stays ok
        rw [significant] at stays
        rw [length, List.take_left, List.drop_left] at follows
        rw [length, List.take_left]
        exact ⟨stays behind follows, List.take_left⟩
    rw [List.nil_append, List.cons_append] at there
    rw [after_significant there (by rw [same.1, tokenOf_congr (.behind source k) same.2]; exact significant), same.1,
      tokenOf_congr (.behind source k) same.2, same.2]
    simp

theorem exists_finds (source : List Char) (k : Nat) (told : Bool) :
    ∃ gap word rest token, Finds source k told gap word rest token := by
  induction length : (source.drop k).length using Nat.strongRecOn generalizing k with
  | ind n ih =>
    cases here : source.drop k with
    | nil => exact ⟨[], [], [], _, finds_end here⟩
    | cons c text =>
      cases kind : (tokenOf c text (.behind source k) (scan told c text)).kind.isTrivia with
      | false => exact ⟨[], _, _, _, finds_significant here kind⟩
      | true =>
        obtain ⟨found, ok, trivia⟩ : ∃ found, (scan told c text).outcome = .ok found ∧
            found.1.isTrivia := by
          unfold tokenOf at kind
          split at kind
          · next kind' value ok => exact ⟨_, ok, kind⟩
          · cases kind
        have less : (source.drop (k + ((text.take (scan told c text).extra).length + 1))).length <
            n := by
          have some := congrArg List.length here
          rw [List.length_drop] at some length ⊢
          simp only [List.length_cons] at some
          omega
        obtain ⟨gap, word, rest, token, finds⟩ := ih _ less _ rfl
        exact ⟨_, word, rest, token, .behind here ok trivia finds⟩

end TokenSource

end JavaFrontend
