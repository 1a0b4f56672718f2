import JavaFrontend.Parse.Attempts
import JavaFrontend.Proofs.Parse.Pass
import JavaFrontend.Proofs.Token.Lexeme

/-!
The passes of a parse. Each of them splits the shifts at which those before it said to try again,
and reads only tokens that the source delivers. A parse comes to something other than a token that
does not fit only if its last pass does.
-/

namespace JavaFrontend

variable {α : Type}

/-! ### What sources deliver -/

namespace TokenSource

/-- The source gets to be the other one by handing out tokens and by being told where type
arguments may close. -/
inductive Reaches (source : TokenSource) : TokenSource → Prop where
  | here : Reaches source source
  | next {later : TokenSource} (reached : Reaches source later) : Reaches source later.next.2
  | told {later : TokenSource} (reached : Reaches source later) (inTypes : Bool) :
    Reaches source (later.setInTypes inTypes)

/-- The source hands out the token at some time. -/
def Delivers (source : TokenSource) (token : Token) : Prop :=
  ∃ later, source.Reaches later ∧ later.next.1 = token

variable {source later : TokenSource}

theorem Reaches.nextSignificant (reached : source.Reaches later) :
    source.Reaches later.nextSignificant.2 ∧ source.Delivers later.nextSignificant.1 := by
  fun_induction TokenSource.nextSignificant later with
  | case1 later _ ih => exact ih reached.next
  | case2 later _ => exact ⟨reached.next, later, reached, rfl⟩

/-- The lexer of a text hands out what lexers do. -/
theorem sound_of_delivers_text {lexer : Lexer} {token : Token}
    (delivered : (text lexer).Delivers token) : token.Sound := by
  obtain ⟨later, reached, rfl⟩ := delivered
  have lexing : ∃ lexer, later = text lexer := by
    induction reached with
    | here => exact ⟨lexer, rfl⟩
    | next _ ih =>
      obtain ⟨between, rfl⟩ := ih
      exact ⟨between.next.2, rfl⟩
    | told _ inTypes ih =>
      obtain ⟨between, rfl⟩ := ih
      exact ⟨between.setInTypes inTypes, rfl⟩
  obtain ⟨last, rfl⟩ := lexing
  exact last.sound_next.1

theorem Reaches.of_list {source : TokenList} (reached : (list source).Reaches later) :
    ∃ left, later = list ⟨left, source.finish⟩ ∧ left <:+ source.tokens := by
  induction reached with
  | here => exact ⟨source.tokens, rfl, List.suffix_rfl⟩
  | next _ ih =>
    obtain ⟨left, rfl, suffix⟩ := ih
    cases left with
    | nil => exact ⟨[], rfl, suffix⟩
    | cons token left => exact ⟨left, rfl, (List.suffix_cons token left).trans suffix⟩
  | told _ _ ih =>
    obtain ⟨left, rfl, suffix⟩ := ih
    exact ⟨left, rfl, suffix⟩

/-- A list delivers its tokens and the end mark. -/
theorem mem_of_delivers_list {source : TokenList} {token : Token}
    (delivered : (list source).Delivers token) :
    token ∈ source.tokens ∨ token = .endOfInput source.finish := by
  obtain ⟨later, reached, rfl⟩ := delivered
  obtain ⟨left, rfl, suffix⟩ := reached.of_list
  cases left with
  | nil => exact .inr rfl
  | cons token left => exact .inl (suffix.subset List.mem_cons_self)

end TokenSource

namespace Parser

/-- What the tape keeps whenever a token is taken from it, it keeps during a pass. -/
theorem kept_pass (parser : Parser α) {Holds : Tape → Prop} {splits : List Position} {tape : Tape}
    (kept : ∀ (tape rest : Tape) inTypes token, Holds tape →
      tape.next inTypes = .ok (token, rest) → Holds rest)
    (holds : Holds tape) : Holds (parser.pass splits tape).tape := by
  have goesOn (chart : Chart α) (shifts : List Position) :
      Holds (parser.continuePass splits chart shifts tape).tape := by
    fun_induction Parser.continuePass parser splits chart shifts tape with
    | case1 => exact holds
    | case2 _ _ _ _ _ _ ran => exact kept _ _ _ _ holds ran
    | case3 _ _ _ _ _ _ ran => exact kept _ _ _ _ holds ran
    | case4 _ _ _ _ _ _ ran _ _ _ _ _ ih => exact ih (kept _ _ _ _ holds ran)
  unfold pass
  split
  · exact holds
  · exact goesOn _ _

end Parser

/-- All tokens of the tape are delivered by the source and no errors, and what is left is left of
it. -/
structure Tape.Drawn (source : TokenSource) (tape : Tape) : Prop where
  left : source.Reaches tape.source
  read : ∀ token ∈ tape.read, source.Delivers token ∧ token.error? = none
  ahead : ∀ token ∈ tape.ahead, source.Delivers token ∧ token.error? = none

namespace Tape.Drawn

variable {source : TokenSource} {tape rest : Tape} {inTypes : Option Bool} {token : Token}

theorem next (drawn : Drawn source tape) (ran : tape.next inTypes = .ok (token, rest)) :
    Drawn source rest := by
  unfold Tape.next at ran
  split at ran
  · rename_i first others same
    cases ran
    obtain ⟨here, later⟩ := List.forall_mem_cons.mp (same ▸ drawn.ahead)
    exact ⟨drawn.left, List.forall_mem_cons.mpr ⟨here, drawn.read⟩, later⟩
  · have told : source.Reaches (inTypes.elim tape.source tape.source.setInTypes) := by
      cases inTypes with
      | none => exact drawn.left
      | some inTypes => exact drawn.left.told inTypes
    obtain ⟨left, here⟩ := told.nextSignificant
    dsimp only at ran
    split at ran
    · cases ran
    · rename_i sound
      cases ran
      exact ⟨left, List.forall_mem_cons.mpr ⟨⟨here, sound⟩, drawn.read⟩, drawn.ahead⟩

theorem rewind (drawn : Drawn source tape) : Drawn source tape.rewind where
  left := drawn.left
  read token member := by cases member
  ahead token member := by
    rcases List.mem_append.mp member with before | after
    · exact drawn.read token (List.mem_reverse.mp before)
    · exact drawn.ahead token after

theorem pass {parser : Parser α} {splits : List Position} (drawn : Drawn source tape) :
    Drawn source (parser.pass splits tape).tape :=
  parser.kept_pass (fun _ _ _ _ drawn => drawn.next) drawn

end Tape.Drawn

/-! ### One pass after the other -/

namespace Parser

variable {parser : Parser α} {source : TokenSource} {earlier later : List (Pass α)} {pass : Pass α}

/-- All passes over the source, in order. -/
def passes (parser : Parser α) (source : TokenSource) : List (Pass α) :=
  (parser.attempts source).1 :: (parser.attempts source).2

/-- The shifts that are split after the passes, the last of them first. -/
def splitsAfter (earlier : List (Pass α)) : List Position :=
  (earlier.filterMap Pass.retry?).reverse

theorem splitsAfter_cons {position : Position} (again : pass.retry? = some position)
    (earlier : List (Pass α)) :
    splitsAfter (pass :: earlier) = splitsAfter earlier ++ [position] := by
  simp [splitsAfter, again]

private theorem attemptsFrom_first (parser : Parser α) (splits : List Position) (tape : Tape)
    (fuel : Nat) :
    (parser.attemptsFrom splits tape fuel).1 = parser.pass splits tape := by
  cases fuel with
  | zero => rfl
  | succ fuel =>
    unfold attemptsFrom
    dsimp only
    split <;> rfl

/-- There are further passes only if the first one says what to split for them. -/
private theorem attemptsFrom_further (parser : Parser α) (splits : List Position) (tape : Tape)
    (fuel : Nat) (further : (parser.attemptsFrom splits tape fuel).2 ≠ []) :
    ∃ position less, fuel = less + 1 ∧
      Pass.retry? (parser.pass splits tape) = some position ∧
      let next :=
        parser.attemptsFrom (position :: splits) (parser.pass splits tape).tape.rewind less
      (parser.attemptsFrom splits tape fuel).2 = next.1 :: next.2 := by
  cases fuel with
  | zero => exact absurd rfl further
  | succ fuel =>
    cases again : Pass.retry? (parser.pass splits tape) with
    | none => simp [attemptsFrom, again] at further
    | some position => exact ⟨position, fuel, rfl, rfl, by simp [attemptsFrom, again]⟩

/-- Every pass splits the shifts that are split after those before it, and begins with a tape of
which all holds, given those shifts, that the passes before it keep. -/
private theorem attemptsFrom_cases {Holds : List Position → Tape → Prop} {fuel : Nat}
    {splits : List Position} {tape : Tape}
    (kept : ∀ splits tape position, Holds splits tape →
      Pass.retry? (parser.pass splits tape) = some position →
      Holds (position :: splits) (parser.pass splits tape).tape.rewind)
    (holds : Holds splits tape) (unread : tape.read = [])
    (split : (parser.attemptsFrom splits tape fuel).1 :: (parser.attemptsFrom splits tape fuel).2 =
      earlier ++ pass :: later) :
    ∃ tape, Holds (splitsAfter earlier ++ splits) tape ∧ tape.read = [] ∧
      pass = parser.pass (splitsAfter earlier ++ splits) tape := by
  induction earlier generalizing fuel splits tape with
  | nil =>
    obtain ⟨rfl, -⟩ := List.cons.inj split
    exact ⟨tape, holds, unread, parser.attemptsFrom_first splits tape fuel⟩
  | cons before earlier ih =>
    obtain ⟨rfl, rest⟩ : _ ∧ _ = earlier ++ pass :: later := List.cons.inj split
    obtain ⟨position, less, -, again, further⟩ :=
      parser.attemptsFrom_further splits tape fuel (by simp [rest])
    rw [attemptsFrom_first, splitsAfter_cons again, List.append_assoc]
    exact ih (kept splits tape position holds again) rfl (further.symm.trans rest)

/-- There are at most as many passes after the first as there are to be. -/
private theorem length_attemptsFrom_le (parser : Parser α) (splits : List Position) (tape : Tape)
    (fuel : Nat) : (parser.attemptsFrom splits tape fuel).2.length ≤ fuel := by
  induction fuel generalizing splits tape with
  | zero => exact Nat.le_refl _
  | succ fuel ih =>
    by_cases further : (parser.attemptsFrom splits tape (fuel + 1)).2 = []
    · simp [further]
    · obtain ⟨position, less, same, -, next⟩ := parser.attemptsFrom_further splits tape _ further
      obtain rfl : fuel = less := Nat.succ.inj same
      rw [next, List.length_cons]
      exact Nat.succ_le_succ (ih _ _)

/-- If the first pass does not ask for another one, it is the only one. -/
theorem parse_of_final (final : Pass.retry? (parser.pass [] { source }) = none) :
    parser.parse source = (parser.pass [] { source }).outcome := by
  have only : (parser.attempts source).2 = [] := by
    by_contra further
    obtain ⟨position, _, -, again, -⟩ := parser.attemptsFrom_further [] { source } _ further
    rw [final] at again
    cases again
  rw [parse, verdict, only, List.foldl_nil, attempts, attemptsFrom_first]

/-- A pass after which there are others has said what to split for the next one, and the last pass
asks for no other one unless there have been as many as there were to be at most. -/
private theorem attemptsFrom_again {fuel : Nat} {splits : List Position} {tape : Tape}
    (split : (parser.attemptsFrom splits tape fuel).1 :: (parser.attemptsFrom splits tape fuel).2 =
      earlier ++ pass :: later) :
    (later ≠ [] → ∃ position, pass.retry? = some position) ∧
      (later = [] → pass.retry? = none ∨ earlier.length = fuel) := by
  induction earlier generalizing fuel splits tape with
  | nil =>
    obtain ⟨rfl, rest⟩ := List.cons.inj split
    rw [attemptsFrom_first]
    constructor
    · intro further
      obtain ⟨position, _, -, again, -⟩ :=
        parser.attemptsFrom_further splits tape fuel (by rw [rest]; exact further)
      exact ⟨position, again⟩
    · rintro rfl
      cases fuel with
      | zero => exact .inr rfl
      | succ fuel =>
        cases again : Pass.retry? (parser.pass splits tape) with
        | none => exact .inl rfl
        | some position => simp [attemptsFrom, again] at rest
  | cons before earlier ih =>
    obtain ⟨-, rest⟩ : _ ∧ _ = earlier ++ pass :: later := List.cons.inj split
    obtain ⟨position, less, rfl, -, further⟩ :=
      parser.attemptsFrom_further splits tape fuel (by simp [rest])
    obtain ⟨again, final⟩ := ih (further.symm.trans rest)
    exact ⟨again, fun none => by simpa using final none⟩

theorem retry_of_further (split : parser.passes source = earlier ++ pass :: later)
    (further : later ≠ []) : ∃ position, pass.retry? = some position :=
  (attemptsFrom_again split).1 further

/-- There is no pass after the last one because it asks for none, or because there have been as many
others as there is left of the source. -/
theorem final_of_last (split : parser.passes source = earlier ++ [pass]) :
    pass.retry? = none ∨ earlier.length = source.remaining :=
  (attemptsFrom_again split).2 rfl

/-- There are no more passes before one than there is left of the source. -/
theorem length_le_of_passes (split : parser.passes source = earlier ++ pass :: later) :
    earlier.length + later.length ≤ source.remaining := by
  have bound := parser.length_attemptsFrom_le [] { source } source.remaining
  have length := congrArg List.length split
  simp only [passes, attempts, List.length_cons, List.length_append] at length
  omega

/-- What passes keep of the tape and of the shifts to split holds of those that each of them begins
with. -/
theorem splits_of_passes (Holds : List Position → Tape → Prop) (start : Holds [] { source })
    (kept : ∀ splits tape position, Holds splits tape →
      Pass.retry? (parser.pass splits tape) = some position →
      Holds (position :: splits) (parser.pass splits tape).tape.rewind)
    (split : parser.passes source = earlier ++ pass :: later) :
    ∃ tape, Holds (splitsAfter earlier) tape ∧ tape.read = [] ∧
      pass = parser.pass (splitsAfter earlier) tape := by
  simpa using attemptsFrom_cases kept start rfl split

/-- What passes keep of the tape holds of the one that each of them begins with. -/
theorem begin_of_passes (Holds : Tape → Prop) (start : Holds { source })
    (kept : ∀ splits tape, Holds tape → Holds (parser.pass splits tape).tape.rewind)
    (split : parser.passes source = earlier ++ pass :: later) :
    ∃ tape, Holds tape ∧ tape.read = [] ∧ pass = parser.pass (splitsAfter earlier) tape :=
  splits_of_passes (fun _ => Holds) start
    (fun splits tape _ holds _ => kept splits tape holds) split

/-- Every pass begins at the first token and splits the shifts that are split after those before
it. -/
theorem pass_of_passes (split : parser.passes source = earlier ++ pass :: later) :
    ∃ tape, tape.Drawn source ∧ tape.read = [] ∧ pass = parser.pass (splitsAfter earlier) tape :=
  begin_of_passes _ ⟨.here, by simp, by simp⟩ (fun _ _ drawn => drawn.pass.rewind) split

/-- What is taken from a tape was delivered by the source, or stands for a part of a shift. -/
theorem mem_taken {splits : List Position} {tape : Tape} {token : Token}
    (drawn : tape.Drawn source) (member : token ∈ taken splits tape) :
    (source.Delivers token ∧ token.error? = none) ∨
      token.kind = .greater ∧ token.value = .none := by
  obtain ⟨read, among, piece⟩ := List.mem_flatMap.mp member
  have delivered := drawn.read read (List.mem_reverse.mp among)
  unfold pieces at piece
  split at piece
  · obtain ⟨i, -, rfl⟩ := List.mem_map.mp piece
    exact .inr ⟨rfl, rfl⟩
  · rw [List.mem_singleton.mp piece]
    exact .inl delivered

/-- And so was what a pass has scanned. -/
theorem mem_scanned {splits : List Position} {tape : Tape} {token : Token}
    (drawn : tape.Drawn source) (member : token ∈ (parser.pass splits tape).scanned splits) :
    source.Delivers token ∨ token.kind = .greater ∧ token.value = .none :=
  (mem_taken drawn.pass (List.mem_of_mem_take member)).imp_left And.left

private theorem prefer_eq {best other outcome : Except ParseError α}
    (preferred : Pass.prefer best other = outcome)
    (final : ∀ position kind expected, outcome ≠ .error (.unexpected position kind expected)) :
    other = outcome := by
  unfold Pass.prefer at preferred
  split at preferred
  · split at preferred
    · exact preferred
    · exact absurd preferred.symm (final _ _ _)
  · exact preferred

/-- A parse that does not stop at a token comes to what its last pass comes to. -/
theorem outcome_of_parse {outcome : Except ParseError α} (parsed : parser.parse source = outcome)
    (final : ∀ position kind expected, outcome ≠ .error (.unexpected position kind expected)) :
    ∃ earlier pass, parser.passes source = earlier ++ [pass] ∧ pass.outcome = outcome := by
  unfold parse verdict at parsed
  unfold passes
  rcases List.eq_nil_or_concat (parser.attempts source).2 with none | ⟨before, last, some⟩
  · rw [none] at parsed ⊢
    exact ⟨[], _, rfl, parsed⟩
  · rw [some] at parsed ⊢
    rw [List.concat_eq_append, List.foldl_append] at parsed
    refine ⟨(parser.attempts source).1 :: before, last, ?_, prefer_eq parsed final⟩
    rw [List.concat_eq_append, List.cons_append]

/-- If something is made of the source, then by the last pass. -/
theorem outcome_of_last {root : α} (parsed : parser.parse source = .ok root)
    (split : parser.passes source = earlier ++ [pass]) : pass.outcome = .ok root := by
  obtain ⟨before, last, same, outcome⟩ := outcome_of_parse parsed (by simp)
  obtain ⟨-, last⟩ := List.append_inj' (split.symm.trans same) rfl
  rwa [(List.cons.inj last).1]

end Parser

end JavaFrontend
