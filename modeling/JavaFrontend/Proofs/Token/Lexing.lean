import JavaFrontend.Proofs.Token.Lexeme

/-!
Lexing from the first character to the last. Whatever a lexer is asked and told, the texts of the
tokens that it hands out are the text that it has passed, and each token is at the place where the
text before it ends. Places are counted here over the whole text: a line ends at a line feed and at
a carriage return with no line feed behind it.
-/

namespace JavaFrontend

/-! ### Places in a text -/

namespace Position

/-- Whether a line ends with the character at the index. -/
def endsLine (source : List Char) (i : Nat) : Bool :=
  source[i]? == some '\n' || source[i]? == some '\r' && source[i + 1]? != some '\n'

/-- The place behind the first `k` characters: the lines that end among them, and how many of them
there are since the last one that ends a line. -/
def behind (source : List Char) (k : Nat) : Position where
  line := 1 + (List.range k).countP (endsLine source)
  column := 1 + ((List.range k).reverse.takeWhile fun i => !endsLine source i).length

/-- A character moves the place behind those before it to the place behind it. -/
theorem after_behind {source : List Char} {k : Nat} {c : Char} (here : source[k]? = some c) :
    (behind source k).after c source[k + 1]? = behind source (k + 1) := by
  have ends : endsLine source k = (c == '\n' || c == '\r' && source[k + 1]? != some '\n') := by
    simp [endsLine, here]
  unfold after behind
  rw [List.range_succ, List.countP_append, List.reverse_append, List.reverse_singleton,
    List.singleton_append, List.takeWhile_cons, List.countP_singleton]
  by_cases line : endsLine source k
  · have either : c = '\n' ∨ (c = '\r' && source[k + 1]? != some '\n') := by
      simpa [ends] using line
    simp only [line, Bool.not_true, Bool.false_eq_true, if_true, if_false, List.length_nil]
    rcases either with rfl | either
    · rfl
    · by_cases feed : c = '\n'
      · rw [if_pos feed]
        rfl
      · rw [if_neg feed, if_pos either]
        rfl
  · have neither : ¬ c = '\n' ∧ ¬ (c = '\r' && source[k + 1]? != some '\n') := by
      simpa [ends, not_or] using line
    rw [if_neg neither.1, if_neg neither.2, if_neg line, if_pos (by simp [line])]
    rfl

/-- Advancing over some of the characters leads to the place behind them. -/
theorem advance_behind {source : List Char} (k : Nat) (passed following : List Char)
    (left : source.drop k = passed ++ following) :
    (behind source k).advance passed following = behind source (k + passed.length) := by
  induction passed generalizing k with
  | nil => rfl
  | cons c passed ih =>
    have here : source[k]? = some c := by
      rw [← List.head?_drop, left]
      rfl
    have next : source.drop (k + 1) = passed ++ following := by
      rw [← List.tail_drop, left]
      rfl
    have behind : passed.head?.or following.head? = source[k + 1]? := by
      rw [← List.head?_drop, next, List.head?_append]
    rw [advance, behind, after_behind here, ih (k + 1) next, List.length_cons]
    exact congrArg _ (by omega)

/-- The place is further ahead in its line, or in an earlier line. -/
def Before (a b : Position) : Prop := a.line < b.line ∨ a.line = b.line ∧ a.column < b.column

theorem Before.trans {a b c : Position} (first : a.Before b) (second : b.Before c) : a.Before c := by
  unfold Before at *
  omega

theorem Before.ne {a b : Position} (before : a.Before b) : a ≠ b := by
  rintro rfl
  unfold Before at before
  omega

theorem before_after (position : Position) (c : Char) (next : Option Char) :
    position.Before (position.after c next) := by
  unfold after
  split
  · exact .inl (Nat.lt_succ_self _)
  · split
    · exact .inl (Nat.lt_succ_self _)
    · exact .inr ⟨rfl, Nat.lt_succ_self _⟩

theorem before_advance (position : Position) (c : Char) (passed following : List Char) :
    position.Before (position.advance (c :: passed) following) := by
  rw [advance]
  induction passed generalizing position c with
  | nil => exact before_after ..
  | cons d passed ih => exact (before_after ..).trans (ih _ d)

end Position

/-! ### Runs of a lexer -/

namespace Lexer

/-- What can be asked of a lexer and what it can be told between tokens. -/
inductive Call where
  | next
  | tell (inTypes : Bool)
deriving DecidableEq

/-- What a lexer answers to a call, and what becomes of it. -/
def call (lexer : Lexer) : Call → List Token × Lexer
  | .next => ([lexer.next.1], lexer.next.2)
  | .tell inTypes => ([], lexer.setInTypes inTypes)

/-- All tokens that a lexer hands out during some calls, and what becomes of it. -/
def run (lexer : Lexer) : List Call → List Token × Lexer
  | [] => ([], lexer)
  | call :: calls =>
    let (tokens, next) := lexer.call call
    let (more, last) := next.run calls
    (tokens ++ more, last)

/-- The text that tokens were read from. -/
def textOf (tokens : List Token) : List Char := tokens.flatMap (·.text.toList)

variable {lexer : Lexer} {source : List Char} {k : Nat} {calls further : List Call}

@[simp] theorem textOf_nil : textOf [] = [] := rfl

@[simp] theorem textOf_cons (token : Token) (tokens : List Token) :
    textOf (token :: tokens) = token.text.toList ++ textOf tokens := rfl

theorem run_cons (call : Call) : lexer.run (call :: calls) =
    ((lexer.call call).1 ++ ((lexer.call call).2.run calls).1,
      ((lexer.call call).2.run calls).2) := rfl

/-- The lexer has passed the first `k` characters of the text. -/
structure Stands (source : List Char) (k : Nat) (lexer : Lexer) : Prop where
  text : lexer.text = source.drop k
  position : lexer.position = .behind source k

theorem stands_start (source : String) : Stands source.toList 0 (ofString source) := ⟨rfl, rfl⟩

/-- Where some text is left, the token is as long as its lexeme. -/
theorem next_cons (c : Char) (text : List Char) (position : Position) (inTypes : Bool) :
    let length := (Lexeme.scan inTypes c text).extra
    let passed := c :: text.take length
    ∃ kind value, next ⟨c :: text, position, inTypes⟩ =
      (⟨kind, String.ofList passed, position, value⟩,
        ⟨text.drop length, position.advance passed (text.drop length), inTypes⟩) := by
  unfold next
  dsimp only
  cases (Lexeme.scan inTypes c text).outcome with
  | ok found => exact ⟨found.1, found.2, rfl⟩
  | error reason => exact ⟨_, _, rfl⟩

/-- The kind and the value that a token has for what is scanned. -/
def found : Except LexError (Kind × TokenValue) → Kind × TokenValue
  | .ok found => found
  | .error reason => (.invalid, .error reason)

/-- What is scanned of a line is handed out, and what stands behind it is left. -/
theorem next_inLine {c : Char} {more rest : List Char} {inTypes : Bool}
    {outcome : Except LexError (Kind × TokenValue)}
    (inLine : ∀ d ∈ c :: more, d ≠ '\n' ∧ d ≠ '\r')
    (scanned : Lexeme.scan inTypes c (more ++ rest) = ⟨more.length, outcome⟩)
    (position : Position) : next ⟨c :: (more ++ rest), position, inTypes⟩ =
      (⟨(found outcome).1, String.ofList (c :: more), position, (found outcome).2⟩,
        ⟨rest, position.shift (c :: more).length, inTypes⟩) := by
  unfold next
  simp only [scanned, List.take_left, List.drop_left, Position.advance_inLine position inLine]
  cases outcome <;> rfl

/-- A token is what the lexer passes, and at the place where it begins. -/
theorem Stands.next (stands : Stands source k lexer) :
    lexer.next.1.text.toList ++ lexer.next.2.text = lexer.text ∧
      lexer.next.1.position = .behind source k ∧
      Stands source (k + lexer.next.1.text.toList.length) lexer.next.2 := by
  obtain ⟨text, position, inTypes⟩ := lexer
  obtain ⟨rfl, rfl⟩ := stands
  dsimp only
  generalize left : source.drop k = text
  cases text with
  | nil => exact ⟨rfl, rfl, left.symm, rfl⟩
  | cons c text =>
    obtain ⟨kind, value, same⟩ := next_cons c text (.behind source k) inTypes
    generalize (Lexeme.scan inTypes c text).extra = length at same
    have split : source.drop k = (c :: text.take length) ++ text.drop length := by
      rw [left, List.cons_append, List.take_append_drop]
    rw [same]
    dsimp only
    rw [String.toList_ofList]
    refine ⟨by rw [← split, left], rfl, ?_, Position.advance_behind k _ _ split⟩
    rw [← List.drop_drop, split, List.drop_left]

theorem Stands.call (stands : Stands source k lexer) (call : Call) :
    textOf (lexer.call call).1 ++ (lexer.call call).2.text = lexer.text ∧
      (∀ token ∈ (lexer.call call).1, token.position = .behind source k) ∧
      Stands source (k + (textOf (lexer.call call).1).length) (lexer.call call).2 := by
  cases call with
  | next =>
    obtain ⟨same, place, further⟩ := stands.next
    simpa [Lexer.call] using And.intro same ⟨place, further⟩
  | tell inTypes => exact ⟨rfl, by simp [Lexer.call], stands.text, stands.position⟩

/-- So the tokens of a run are all that the lexer passes, each of them where it begins. -/
theorem Stands.run (stands : Stands source k lexer) (calls : List Call) :
    textOf (lexer.run calls).1 ++ (lexer.run calls).2.text = lexer.text ∧
      ∀ before (token : Token) after, (lexer.run calls).1 = before ++ token :: after →
        token.position = .behind source (k + (textOf before).length) := by
  induction calls generalizing lexer k with
  | nil => exact ⟨rfl, fun before token after none => by simp [Lexer.run] at none⟩
  | cons call calls ih =>
    obtain ⟨same, places, further⟩ := stands.call call
    obtain ⟨sameLater, placesLater⟩ := ih further
    rw [run_cons]
    refine ⟨?_, fun before token after split => ?_⟩
    · rw [textOf, List.flatMap_append, List.append_assoc]
      exact (congrArg _ sameLater).trans same
    · cases call with
      | next =>
        cases before with
        | nil =>
          obtain ⟨rfl, -⟩ := List.cons.inj split
          exact places _ (List.mem_singleton_self _)
        | cons first before =>
          obtain ⟨rfl, later⟩ := List.cons.inj split
          rw [placesLater before token after later, Nat.add_assoc, textOf_cons, List.length_append]
          simp [Lexer.call]
      | tell inTypes => exact placesLater before token after split

/-! ### The end of a text -/

/-- While something is left, every token takes some of it. -/
theorem length_run (calls : List Call) :
    (lexer.run calls).2.text.length ≤ lexer.text.length - calls.count .next := by
  induction calls generalizing lexer with
  | nil => simp [run]
  | cons call calls ih =>
    rw [run_cons]
    refine Nat.le_trans ih ?_
    cases call with
    | next =>
      rw [List.count_cons_self]
      by_cases none : lexer.text = []
      · simp [Lexer.call, next, none]
      · have less := length_next_lt none
        dsimp only [Lexer.call]
        omega
    | tell inTypes => exact Nat.le_of_eq (by simp [Lexer.call, setInTypes])

/-- At the end of the text there is nothing but end marks. -/
theorem run_of_end (none : lexer.text = []) (calls : List Call) :
    (∀ token ∈ (lexer.run calls).1, token = .endOfInput lexer.position) ∧
      (lexer.run calls).2.text = [] ∧ (lexer.run calls).2.position = lexer.position := by
  induction calls generalizing lexer with
  | nil => exact ⟨by simp [run], none, rfl⟩
  | cons call calls ih =>
    have same : (∀ token ∈ (lexer.call call).1, token = .endOfInput lexer.position) ∧
        (lexer.call call).2.text = [] ∧ (lexer.call call).2.position = lexer.position := by
      obtain ⟨text, position, inTypes⟩ := lexer
      cases none
      cases call with
      | next => exact ⟨by simp [Lexer.call, next], rfl, rfl⟩
      | tell inTypes => exact ⟨by simp [Lexer.call], rfl, rfl⟩
    obtain ⟨here, left, place⟩ := same
    obtain ⟨later, ended, last⟩ := ih left
    rw [run_cons]
    rw [place] at later last
    exact ⟨List.forall_mem_append.mpr ⟨here, later⟩, ended, last⟩

theorem position_next (lexer : Lexer) : lexer.next.1.position = lexer.position := by
  obtain ⟨text, position, inTypes⟩ := lexer
  cases text with
  | nil => rfl
  | cons c text =>
    obtain ⟨kind, value, same⟩ := next_cons c text position inTypes
    rw [same]

theorem before_next (more : lexer.text ≠ []) : lexer.position.Before lexer.next.2.position := by
  obtain ⟨text, position, inTypes⟩ := lexer
  obtain ⟨c, text, rfl⟩ := List.exists_cons_of_ne_nil more
  obtain ⟨kind, value, same⟩ := next_cons c text position inTypes
  rw [same]
  exact Position.before_advance ..

/-- The tokens of a text are at later and later places. -/
theorem sorted_tokens (lexer : Lexer) :
    (∀ token ∈ lexer.tokens, token.position = lexer.position ∨
      lexer.position.Before token.position) ∧
      lexer.tokens.Pairwise fun token later => token.position.Before later.position := by
  fun_induction tokens lexer with
  | case1 lexer none => simp [position_next]
  | case2 lexer more ih =>
    obtain ⟨later, sorted⟩ := ih
    have behind (token : Token) (member : token ∈ lexer.next.2.tokens) :
        lexer.position.Before token.position := by
      rcases later token member with here | before
      · rw [here]
        exact before_next more
      · exact (before_next more).trans before
    refine ⟨List.forall_mem_cons.mpr ⟨.inl (position_next lexer), fun token member =>
      .inr (behind token member)⟩, List.pairwise_cons.mpr ⟨?_, sorted⟩⟩
    rwa [position_next]

/-- A literal that breaks off at a carriage return leaves the end of the line to the line feed. -/
example : ((ofString "'\r\nb").run [.next, .next, .next, .next]).1.map (·.position) =
    [⟨1, 1⟩, ⟨1, 3⟩, ⟨2, 1⟩, ⟨2, 2⟩] := by decide

end Lexer

end JavaFrontend
