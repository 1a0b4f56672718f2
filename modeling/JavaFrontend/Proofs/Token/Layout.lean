import JavaFrontend.Proofs.Token.Context
import JavaFrontend.Proofs.Token.Locality.Scan

/-!
Layout: blanks, line ends and comments. A parser that asks for the next significant token gets the
same one whether it has passed some layout in front of that or not, even if a run of blanks or the
end of a line is cut in two by that.
-/

namespace JavaFrontend

open Lexeme (isBlank isLineEnd commentRest scan)

/-- Blanks, line ends and comments, each of these with its end. -/
inductive Layout : List Char → Prop where
  | nil : Layout []
  | blank {c : Char} {rest : List Char} (blank : isBlank c) (layout : Layout rest) :
    Layout (c :: rest)
  | lineEnd {c : Char} {rest : List Char} (ends : isLineEnd c) (layout : Layout rest) :
    Layout (c :: rest)
  | substitute {rest : List Char} (layout : Layout rest) : Layout ('\x1a' :: rest)
  | lineComment {words rest : List Char} {c : Char} (inside : ∀ c ∈ words, isLineEnd c = false)
    (ends : isLineEnd c) (layout : Layout rest) : Layout ('/' :: '/' :: words ++ c :: rest)
  | blockComment {words rest : List Char} (inside : ¬ ['*', '/'] <:+: words)
    (layout : Layout rest) : Layout ('/' :: '*' :: words ++ '*' :: '/' :: rest)

theorem Layout.append {front back : List Char} (first : Layout front) (second : Layout back) :
    Layout (front ++ back) := by
  induction first with
  | nil => exact second
  | blank blank _ ih => exact .blank blank ih
  | lineEnd ends _ ih => exact .lineEnd ends ih
  | substitute _ ih => exact .substitute ih
  | lineComment inside ends _ ih => simpa using Layout.lineComment inside ends ih
  | blockComment inside _ ih => simpa using Layout.blockComment inside ih

namespace Lexer

variable {source : List Char} {k : Nat} {told : Bool}

/-- The lexer that has passed the first characters of the text. -/
def passing (source : List Char) (k : Nat) (told : Bool) : Lexer where
  text := source.drop k
  position := .behind source k
  inTypes := told

theorem stands_passing (source : List Char) (k : Nat) (told : Bool) :
    Stands source k (passing source k told) := ⟨rfl, rfl⟩

theorem Stands.eq_passing {lexer : Lexer} (stands : Stands source k lexer) :
    lexer = passing source k lexer.inTypes := by
  obtain ⟨text, position, told⟩ := lexer
  obtain ⟨rfl, rfl⟩ := stands
  rfl

/-- The token of a lexeme that starts with the character. -/
def tokenOf (c : Char) (text : List Char) (position : Position) (lexeme : Lexeme) : Token :=
  match lexeme.outcome with
  | .ok (kind, value) =>
    { kind, text := String.ofList (c :: text.take lexeme.extra), position, value : Token }
  | .error reason =>
    { kind := .invalid, text := String.ofList (c :: text.take lexeme.extra), position,
      value := .error reason }

/-- A lexer hands out the lexeme at the head of what is left, and passes it. -/
theorem next_passing {c : Char} {text : List Char} (here : source.drop k = c :: text) :
    (passing source k told).next =
      (tokenOf c text (.behind source k) (scan told c text),
        passing source (k + ((text.take (scan told c text).extra).length + 1)) told) := by
  have first : (passing source k told).next.1 =
      tokenOf c text (.behind source k) (scan told c text) := by
    unfold passing
    rw [here]
    rfl
  have written : (tokenOf c text (.behind source k) (scan told c text)).text.toList =
      c :: text.take (scan told c text).extra := by
    unfold tokenOf
    split <;> exact String.toList_ofList
  have further := (stands_passing source k told).next.2.2
  rw [first, written] at further
  refine Prod.ext first (further.eq_passing.trans ?_)
  rw [inTypes_next]
  rfl

end Lexer

namespace TokenSource

variable {source : List Char} {k : Nat} {told : Bool}

open Lexer (passing tokenOf next_passing)

/-- The next significant token behind the first characters of the text. -/
abbrev after (source : List Char) (k : Nat) (told : Bool) : Token × TokenSource :=
  (TokenSource.text (passing source k told)).nextSignificant

/-- Trivia is passed over. -/
theorem after_trivia {c : Char} {text : List Char} {found : Kind × TokenValue}
    (here : source.drop k = c :: text) (ok : (scan told c text).outcome = .ok found)
    (trivia : found.1.isTrivia) :
    after source k told =
      after source (k + ((text.take (scan told c text).extra).length + 1)) told := by
  have kind : (tokenOf c text (.behind source k) (scan told c text)).kind = found.1 := by
    rw [tokenOf, ok]
  rw [after, nextSignificant, if_pos]
  · rw [next, next_passing here]
  · rw [next, next_passing here, kind, trivia]
    simp [hasMore, Lexer.hasMore, passing, here]

/-- A lexeme of trivia that takes a known part of the text. -/
theorem after_plain {c : Char} {taken rest : List Char} {kind : Kind}
    (here : source.drop k = c :: (taken ++ rest))
    (found : scan told c (taken ++ rest) = .plain taken.length kind) (trivia : kind.isTrivia) :
    after source k told = after source (k + (taken.length + 1)) told := by
  rw [after_trivia here (congrArg Lexeme.outcome found) trivia, found]
  simp [Lexeme.plain]

/-- A run of blanks may be passed one by one. -/
theorem after_blank {c : Char} {text : List Char} (here : source.drop k = c :: text)
    (blank : isBlank c) : after source k told = after source (k + 1) told := by
  have passed (k : Nat) (c : Char) (run rest : List Char) (here : source.drop k = c :: (run ++ rest))
      (blank : isBlank c) (same : (run ++ rest).takeWhile isBlank = run) :
      after source k told = after source (k + (run.length + 1)) told :=
    after_plain here (by rw [scan, if_pos blank, same]) rfl
  obtain ⟨run, rest, rfl, all, stops, same⟩ := Lexeme.exists_run isBlank text
  rw [passed k c run rest here blank (same rest stops)]
  cases run with
  | nil => rfl
  | cons d run =>
    have next : source.drop (k + 1) = d :: (run ++ rest) := by
      rw [← List.tail_drop, here]
      rfl
    have more := same rest stops
    rw [List.cons_append, List.takeWhile_cons_of_pos (all d List.mem_cons_self)] at more
    rw [passed (k + 1) d run rest next (all d List.mem_cons_self) (List.cons.inj more).2]
    exact congrArg (after source · told) (by simp only [List.length_cons]; omega)

/-- And so may the end of a line, even if that is two characters. -/
theorem after_lineEnd {c : Char} {text : List Char} (here : source.drop k = c :: text)
    (ends : isLineEnd c) : after source k told = after source (k + 1) told := by
  have feed (k : Nat) (text : List Char) (here : source.drop k = '\n' :: text) :
      after source k told = after source (k + 1) told :=
    @after_plain source k told '\n' [] text .lineFeed here rfl rfl
  have either : c = '\n' ∨ c = '\r' := by simpa [Lexeme.isLineEnd] using ends
  rcases either with rfl | rfl
  · exact feed k text here
  by_cases joined : text.head? = some '\n'
  · obtain ⟨rest, rfl⟩ := List.head?_eq_some_iff.mp joined
    have next : source.drop (k + 1) = '\n' :: rest := by
      rw [← List.tail_drop, here]
      rfl
    rw [feed (k + 1) rest next]
    exact @after_plain source k told '\r' ['\n'] rest .carriageReturnLineFeed here rfl rfl
  · refine @after_plain source k told '\r' [] text .carriageReturn here ?_ rfl
    change (if text.head? == some '\n' then _ else _) = _
    rw [if_neg (by simpa using joined)]
    rfl

theorem scan_slash (text : List Char) : scan told '/' text =
    (Lexeme.comment? text).getD (Lexeme.symbol told '/' text) := by
  have start : Lexeme.isIdentifierStart '/' = false := by decide +kernel
  have digit : Digits.isDigit 10 '/' = false := by decide
  simp [scan, isBlank, start, digit]

theorem commentRest_block {words rest : List Char} (inside : ¬ ['*', '/'] <:+: words) :
    commentRest (words ++ '*' :: '/' :: rest) = (words.length + 2, true) := by
  induction words with
  | nil => rfl
  | cons c words ih =>
    rw [List.cons_append, Lexeme.commentRest_cons, ih]
    · rfl
    · exact fun later => inside (later.trans (List.suffix_cons c words).isInfix)
    · rintro rfl slash
      cases words with
      | nil => cases slash
      | cons d words =>
        cases slash
        exact inside (List.prefix_append ['*', '/'] words).isInfix

/-- Layout may be passed before the next significant token is asked for. -/
theorem after_layout {layout rest : List Char} (passed : Layout layout)
    (here : source.drop k = layout ++ rest) :
    after source k told = after source (k + layout.length) told := by
  have step {front back : List Char} (k : Nat) (here : source.drop k = front ++ back) :
      source.drop (k + front.length) = back := by
    rw [← List.drop_drop, here, List.drop_left]
  have passing_ {k j l : Nat} (first : after source k told = after source j told)
      (later : after source j told = after source (j + l) told) {m : Nat} (same : j + l = k + m) :
      after source k told = after source (k + m) told := same ▸ first.trans later
  induction passed generalizing k with
  | nil => rfl
  | @blank c layout blank _ ih =>
    exact passing_ (after_blank here blank) (ih (@step [c] _ k here))
      (by simp only [List.length_cons]; omega)
  | @lineEnd c layout ends _ ih =>
    exact passing_ (after_lineEnd here ends) (ih (@step [c] _ k here))
      (by simp only [List.length_cons]; omega)
  | @substitute layout _ ih =>
    exact passing_ (@after_plain source k told '\x1a' [] _ .substitute here rfl rfl)
      (ih (@step ['\x1a'] _ k here)) (by simp only [List.length_cons, List.length_nil]; omega)
  | @lineComment words layout c inside ends _ ih =>
    have split : source.drop k = '/' :: (('/' :: words) ++ (c :: (layout ++ rest))) := by
      rw [here]
      simp
    have scanned : scan told '/' (('/' :: words) ++ (c :: (layout ++ rest))) =
        .plain ('/' :: words).length .lineComment := by
      have run : (words ++ c :: (layout ++ rest)).takeWhile (!isLineEnd ·) = words := by
        rw [List.takeWhile_append_of_pos (by simpa using inside),
          List.takeWhile_cons_of_neg (by simpa using ends), List.append_nil]
      rw [scan_slash, List.cons_append, Lexeme.comment?, run, Nat.add_comm]
      rfl
    have next : source.drop (k + (('/' :: words).length + 1)) = c :: (layout ++ rest) :=
      @step ('/' :: '/' :: words) _ k split
    exact passing_ ((after_plain split scanned rfl).trans (after_lineEnd next ends))
      (ih (@step [c] _ _ next))
      (by simp only [List.length_cons, List.length_append]; omega)
  | @blockComment words layout inside _ ih =>
    have split : source.drop k = '/' :: (('*' :: words ++ ['*', '/']) ++ (layout ++ rest)) := by
      rw [here]
      simp
    have scanned : scan told '/' (('*' :: words ++ ['*', '/']) ++ (layout ++ rest)) =
        .plain ('*' :: words ++ ['*', '/']).length .blockComment := by
      have closed : commentRest (words ++ '*' :: '/' :: (layout ++ rest)) =
          (words.length + 2, true) := commentRest_block inside
      rw [scan_slash, List.append_assoc, List.cons_append, List.cons_append, List.cons_append,
        List.nil_append, Lexeme.comment?, closed]
      simp [Nat.add_comm]
    have next : source.drop (k + (('*' :: words ++ ['*', '/']).length + 1)) = layout ++ rest :=
      @step ('/' :: '*' :: words ++ ['*', '/']) _ k split
    exact passing_ (after_plain split scanned rfl) (ih next)
      (by simp only [List.length_cons, List.length_append, List.length_nil]; omega)

end TokenSource

end JavaFrontend
