import JavaFrontend.Proofs.Parse.Retries
import JavaFrontend.Proofs.Parse.Texts
import JavaFrontend.Proofs.Place.Charts
import Mathlib.Data.List.Forall2

/-!
Two parses side by side. If two tapes hand out the same tokens, at places that may differ but come
in the same order, and what tokens and rules are made into does not depend on places, then passes
over them stop at the same tokens, note down the same shifts, and come to the same but for the
places; and so do the parses, since all that is decided by places is decided by their order.
-/

namespace JavaFrontend

variable {α : Type} [Placed α] {R : Position → Position → Prop}

/-! ### Places in the same order -/

/-- The places that are taken for each other come in the same order. -/
def Ordered (R : Position → Position → Prop) : Prop :=
  ∀ ⦃place other next later⦄, R place other → R next later →
    place.compare next = other.compare later

theorem Position.compare_eq_iff {a b : Position} : a.compare b = .eq ↔ a = b := by
  rw [Position.compare, Ordering.then_eq_eq, Nat.compare_eq_eq, Nat.compare_eq_eq]
  cases a
  cases b
  simp

theorem Ordered.eq_iff {place other next later : Position} (ordered : Ordered R)
    (first : R place other) (second : R next later) : place = next ↔ other = later := by
  rw [← Position.compare_eq_iff, ordered first second, Position.compare_eq_iff]

/-- The same token, with all its parts at places that are taken for each other. -/
structure Token.Beside (R : Position → Position → Prop) (token other : Token) : Prop where
  same : unplaced token = unplaced other
  place : R token.position other.position
  parts : token.kind.isRightShift → ∀ i < max 1 token.text.utf8ByteSize,
    R (token.position.shift i) (other.position.shift i)

theorem Token.Beside.kind {token other : Token} (beside : token.Beside R other) :
    token.kind = other.kind := congrArg (·.kind) beside.same

theorem Token.Beside.text {token other : Token} (beside : token.Beside R other) :
    token.text = other.text := congrArg (·.text) beside.same

/-- The same outcome but for places, and where it is a token that does not fit, places that are taken
for each other. -/
inductive Agree {β : Type} [Placed β] (R : Position → Position → Prop) :
    Except ParseError β → Except ParseError β → Prop where
  | ok {value other : β} (same : unplaced value = unplaced other) : Agree R (.ok value) (.ok other)
  | lexical (place other : Position) (reason : LexError) :
    Agree R (.error (.lexical place reason)) (.error (.lexical other reason))
  | unexpected {place other : Position} (places : R place other) (found : Kind)
    (expected : List Kind) : Agree R (.error (.unexpected place found expected))
      (.error (.unexpected other found expected))
  | internal (reason : ReduceError) :
    Agree R (.error (.internal reason)) (.error (.internal reason))

section Agree

variable {β : Type} [Placed β] {outcome other : Except ParseError β}

theorem Agree.same (agree : Agree R outcome other) : unplaced outcome = unplaced other := by
  cases agree with
  | ok same => exact congrArg Except.ok same
  | _ => rfl

/-- Outcomes that are the same but for places agree if they concern a token that is beside the
other. -/
theorem agree_of_same {token passed : Token} (beside : token.Beside R passed)
    (same : unplaced outcome = unplaced other)
    (here : ∀ place found expected, outcome = .error (.unexpected place found expected) →
      place = token.position)
    (there : ∀ place found expected, other = .error (.unexpected place found expected) →
      place = passed.position) : Agree R outcome other := by
  cases outcome with
  | ok value =>
    cases other with
    | ok other => exact .ok (Except.ok.inj same)
    | error reason => cases same
  | error reason =>
    cases other with
    | ok other => cases same
    | error other =>
      have errors : unplaced reason = unplaced other := Except.error.inj same
      cases reason with
      | lexical place reason =>
        cases other <;> cases errors
        exact .lexical ..
      | unexpected place found expected =>
        cases other <;> cases errors
        obtain rfl := here _ _ _ rfl
        obtain rfl := there _ _ _ rfl
        exact .unexpected beside.place _ _
      | internal reason =>
        cases other <;> cases errors
        exact .internal _

end Agree

namespace Parser

/-! ### One token -/

section Position

variable {α : Type} {parser : Parser α} {chart : Chart α} {token : Token}

theorem position_of_step {place : Position} {found : Kind} {expected : List Kind}
    (failed : parser.step chart token = .error (.unexpected place found expected)) :
    place = token.position := by
  unfold step at failed
  dsimp only at failed
  split at failed
  · cases failed
    rfl
  · split at failed <;> cases failed

theorem position_of_accept {place : Position} {found : Kind} {expected : List Kind}
    (failed : parser.accept chart token = .error (.unexpected place found expected)) :
    place = token.position := by
  unfold accept at failed
  split at failed
  · cases failed
    rfl
  · split at failed <;> cases failed

theorem position_of_finish {place : Position} {found : Kind} {expected : List Kind}
    (failed : (parser.finish chart token).1 = .error (.unexpected place found expected)) :
    place = token.position := by
  unfold finish at failed
  split at failed
  · split at failed
    · exact position_of_accept failed
    · next reason stuck =>
      cases failed
      exact position_of_step stuck
  · exact position_of_accept failed

end Position

variable {parser : Parser α} {chart other : Chart α} {token passed : Token}

theorem expected_congr (same : unplaced chart = unplaced other) :
    parser.expected chart.last = parser.expected other.last := by
  have columns : unplaced chart.last = unplaced other.last := congrArg (·.last) same
  rw [← ChartParser.expected_unplaced, columns, ChartParser.expected_unplaced]

theorem telling_congr (same : unplaced chart = unplaced other) :
    parser.telling chart = parser.telling other := by
  unfold telling insideTypes
  rw [expected_congr same]

section Blind

variable (blind : parser.interpretation.Blind)
include blind

theorem step_agree (same : unplaced chart = unplaced other) (beside : token.Beside R passed) :
    Agree R (parser.step chart token) (parser.step other passed) := by
  refine agree_of_same beside ?_ (fun _ _ _ => position_of_step) (fun _ _ _ => position_of_step)
  rw [← step_unplaced blind, same, beside.same, step_unplaced blind]

theorem finish_agree (same : unplaced chart = unplaced other) (beside : token.Beside R passed) :
    Agree R (parser.finish chart token).1 (parser.finish other passed).1 := by
  refine agree_of_same beside ?_ (fun _ _ _ => position_of_finish)
    (fun _ _ _ => position_of_finish)
  rw [← finish_unplaced blind, same, beside.same, finish_unplaced blind]

/-- Reading the same tokens on comes to the same charts, or to the same error. -/
theorem steps_agree {tokens others : List Token} (same : unplaced chart = unplaced other)
    (beside : List.Forall₂ (Token.Beside R) tokens others) :
    (∃ last further, parser.steps chart tokens = (last, none) ∧
      parser.steps other others = (further, none) ∧ unplaced last = unplaced further) ∨
    ∃ last further reason error, parser.steps chart tokens = (last, some reason) ∧
      parser.steps other others = (further, some error) ∧
      Agree R (.error reason : Except ParseError α) (.error error) := by
  induction beside generalizing chart other with
  | nil => exact .inl ⟨chart, other, rfl, rfl, same⟩
  | @cons token passed tokens others first _ ih =>
    have stepped := step_agree blind same first
    unfold steps
    cases next : parser.step chart token with
    | ok last =>
      rw [next] at stepped
      cases behind : parser.step other passed with
      | ok further =>
        rw [behind] at stepped
        cases stepped with
        | ok same => exact ih same
      | error reason =>
        rw [behind] at stepped
        cases stepped
    | error reason =>
      rw [next] at stepped
      cases behind : parser.step other passed with
      | ok further =>
        rw [behind] at stepped
        cases stepped
      | error error =>
        rw [behind] at stepped
        refine .inr ⟨chart, other, reason, error, rfl, rfl, ?_⟩
        cases stepped with
        | lexical => exact .lexical ..
        | unexpected places => exact .unexpected places ..
        | internal => exact .internal _

end Blind

/-! ### Splitting -/

variable {splits others shifts noted : List Position}

theorem mem_iff (ordered : Ordered R) (beside : List.Forall₂ R splits others) {place other : Position}
    (here : R place other) : place ∈ splits ↔ other ∈ others := by
  induction beside with
  | nil => simp
  | cons first _ ih => rw [List.mem_cons, List.mem_cons, ordered.eq_iff here first, ih]

theorem isSplit_beside (ordered : Ordered R) (beside : List.Forall₂ R splits others)
    (token_ : token.Beside R passed) : isSplit splits token = isSplit others passed := by
  have same : splits.contains token.position = others.contains passed.position := by
    rw [Bool.eq_iff_iff, List.contains_iff_mem, List.contains_iff_mem,
      mem_iff ordered beside token_.place]
  rw [isSplit, isSplit, token_.kind, same]

theorem singles_beside (beside : token.Beside R passed) (shift : token.kind.isRightShift) :
    List.Forall₂ (Token.Beside R) (singles token) (singles passed) := by
  unfold singles
  rw [← beside.text, List.forall₂_map_left_iff, List.forall₂_map_right_iff, List.forall₂_same]
  exact fun i member => ⟨rfl, beside.parts shift i (List.mem_range.mp member), nofun⟩

theorem pieces_beside (ordered : Ordered R) (beside : List.Forall₂ R splits others)
    (token_ : token.Beside R passed) :
    List.Forall₂ (Token.Beside R) (pieces splits token) (pieces others passed) := by
  unfold pieces
  rw [← isSplit_beside ordered beside token_]
  split
  · next split =>
    exact singles_beside token_ (Bool.and_eq_true_iff.mp split).1
  · exact .cons token_ .nil

theorem noting_beside (ordered : Ordered R) (beside : List.Forall₂ R splits others)
    (same : unplaced chart = unplaced other) (token_ : token.Beside R passed)
    (before : List.Forall₂ R shifts noted) :
    List.Forall₂ R (parser.noting splits chart token shifts)
      (parser.noting others other passed noted) := by
  have notes : parser.notes splits chart token = parser.notes others other passed := by
    unfold notes
    rw [token_.kind, isSplit_beside ordered beside token_, expected_congr same]
  unfold noting
  rw [notes]
  split
  · exact .cons token_.place before
  · exact before

/-! ### Passes -/

end Parser

/-- Tapes that run along one another: as long as all that the first hands out is kept, the second
hands out the same beside it, and when all is done that is kept, and the first comes to a fault, the
second comes to the same. -/
structure Coupled (R : Position → Position → Prop) (Kept Done : Tape → Prop)
    (Along : Tape → Tape → Prop) : Prop where
  ordered : Ordered R
  next {tape other rest : Tape} {token : Token} {told : Option Bool} (along : Along tape other)
    (ran : tape.next told = .ok (token, rest)) (kept : Kept rest) : ∃ passed left,
      other.next told = .ok (passed, left) ∧ token.Beside R passed ∧ Along rest left
  fault {tape other : Tape} {told : Option Bool} {place : Position} {reason : LexError}
    (along : Along tape other) (failed : tape.next told = .error (.lexical place reason))
    (done : Done tape) : ∃ place, other.next told = .error (.lexical place reason)
  kept {tape rest : Tape} {token : Token} {told : Option Bool}
    (ran : tape.next told = .ok (token, rest)) (kept : Kept rest) : Kept tape
  rewind {tape other : Tape} (along : Along tape other) : Along tape.rewind other.rewind

/-- Two passes that came to the same. -/
structure Pass.Beside (R : Position → Position → Prop) (Along : Tape → Tape → Prop)
    (pass other : Pass α) : Prop where
  outcome : Agree R pass.outcome other.outcome
  shifts : List.Forall₂ R pass.shifts other.shifts
  tape : Along pass.tape other.tape

namespace Parser

variable {parser : Parser α} {chart other : Chart α} {splits others shifts noted : List Position}
  {Kept Done : Tape → Prop} {Along : Tape → Tape → Prop} {tape along : Tape}

omit [Placed α] in
theorem kept_of_continuePass (coupled : Coupled R Kept Done Along)
    (kept : Kept (parser.continuePass splits chart shifts tape).tape) : Kept tape := by
  fun_induction continuePass parser splits chart shifts tape with
  | case1 => exact kept
  | case2 _ _ _ _ _ _ ran => exact coupled.kept ran kept
  | case3 _ _ _ _ _ _ ran => exact coupled.kept ran kept
  | case4 _ _ _ _ _ _ ran _ _ _ _ _ ih => exact coupled.kept ran (ih kept)

theorem continuePass_beside (blind : parser.interpretation.Blind)
    (coupled : Coupled R Kept Done Along) (split : List.Forall₂ R splits others)
    (same : unplaced chart = unplaced other) (before : List.Forall₂ R shifts noted)
    (tapes : Along tape along) {pass : Pass α}
    (came : parser.continuePass splits chart shifts tape = pass) (kept : Kept pass.tape)
    (done : ∀ place reason, pass.outcome = .error (.lexical place reason) → Done pass.tape) :
    pass.Beside R Along (parser.continuePass others other noted along) := by
  induction length : tape.remaining using Nat.strongRecOn
    generalizing chart shifts tape other noted along with
  | ind n ih =>
    have told := @telling_congr _ _ parser _ _ same
    cases ran : tape.next (parser.telling chart) with
    | error reason =>
      rw [continuePass_error ran] at came
      subst came
      obtain ⟨place, fault, rfl⟩ := Tape.next_error ran
      obtain ⟨place, also⟩ := coupled.fault tapes ran (done _ _ rfl)
      rw [continuePass_error (told ▸ also)]
      exact ⟨.lexical .., before, tapes⟩
    | ok handed =>
      obtain ⟨token, rest⟩ := handed
      by_cases ended : token.kind = .endOfInput
      · rw [continuePass_end ran ended] at came
        subst came
        obtain ⟨passed, left, also, side, further⟩ := coupled.next tapes ran kept
        rw [continuePass_end (told ▸ also) (side.kind ▸ ended)]
        exact ⟨finish_agree blind same side, before, further⟩
      · rw [continuePass_token ran ended] at came
        have keeps : Kept rest := by
          split at came
          · subst came
            exact kept
          · exact kept_of_continuePass coupled (came ▸ kept)
        obtain ⟨passed, left, also, side, further⟩ := coupled.next tapes ran keeps
        have notes := @noting_beside _ _ _ parser _ _ _ _ _ _ _ _ coupled.ordered split same side before
        rw [continuePass_token (told ▸ also) (side.kind ▸ ended)]
        rcases steps_agree blind same (pieces_beside coupled.ordered split side) with
          ⟨last, next, stepped, also, charts⟩ | ⟨last, next, reason, error, stepped, also, errors⟩
        · rw [stepped] at came
          rw [also]
          exact ih _ (length ▸ Tape.remaining_next_lt ran ended) charts notes further came rfl
        · rw [stepped] at came
          rw [also]
          subst came
          exact ⟨errors, notes, further⟩

theorem pass_beside (blind : parser.interpretation.Blind) (coupled : Coupled R Kept Done Along)
    (split : List.Forall₂ R splits others) (tapes : Along tape along)
    (kept : Kept (parser.pass splits tape).tape)
    (done : ∀ place reason, (parser.pass splits tape).outcome = .error (.lexical place reason) →
      Done (parser.pass splits tape).tape) :
    (parser.pass splits tape).Beside R Along (parser.pass others along) := by
  unfold pass at kept done ⊢
  split
  · exact ⟨.internal _, .nil, tapes⟩
  · next first closed =>
    simp only [closed] at kept done
    exact continuePass_beside blind coupled split rfl .nil tapes rfl kept done

/-! ### Parses -/

theorem retry_beside {pass other : Pass α} (beside : pass.Beside R Along other) :
    pass.retry? = none ∧ other.retry? = none ∨ ∃ place further,
      pass.retry? = some place ∧ other.retry? = some further ∧ R place further := by
  obtain ⟨first, _, shifts, _⟩ := pass
  obtain ⟨second, _, noted, _⟩ := other
  obtain ⟨outcome, shifts, -⟩ := beside
  dsimp only at outcome shifts
  cases outcome with
  | unexpected =>
    cases shifts with
    | nil => exact .inl ⟨rfl, rfl⟩
    | cons places => exact .inr ⟨_, _, rfl, rfl, places⟩
  | _ => exact .inl ⟨rfl, rfl⟩

/-- All that is kept during the passes, and done in those that end in a fault. -/
def Keeps (Kept Done : Tape → Prop) (passes : List (Pass α)) : Prop :=
  ∀ pass ∈ passes, Kept pass.tape ∧
    ∀ place reason, pass.outcome = .error (.lexical place reason) → Done pass.tape

/-- The passes come to the same, one after the other, if the first of the parses stops because its
last pass asks for no other. -/
theorem attemptsFrom_beside (blind : parser.interpretation.Blind)
    (coupled : Coupled R Kept Done Along) {fuel more : Nat} (enough : fuel ≤ more)
    (split : List.Forall₂ R splits others) (tapes : Along tape along) {first : Pass α}
    {rest : List (Pass α)} (came : parser.attemptsFrom splits tape fuel = (first, rest))
    (keeps : Keeps Kept Done (first :: rest))
    (final : ∀ earlier (pass : Pass α), first :: rest = earlier ++ [pass] → pass.retry? = none) :
    ∃ second later, parser.attemptsFrom others along more = (second, later) ∧
      List.Forall₂ (Pass.Beside R Along) (first :: rest) (second :: later) := by
  induction fuel generalizing more splits others tape along first rest with
  | zero =>
    obtain ⟨rfl, rfl⟩ := Prod.mk.inj came
    obtain ⟨kept, done⟩ := keeps _ List.mem_cons_self
    have beside := pass_beside blind coupled split tapes kept done
    have last := final [] _ rfl
    obtain ⟨-, none⟩ := (retry_beside beside).resolve_right fun ⟨place, _, again, _⟩ => by
      rw [last] at again
      cases again
    refine ⟨_, [], ?_, .cons beside .nil⟩
    cases more with
    | zero => rfl
    | succ more => simp [attemptsFrom, none]
  | succ fuel ih =>
    obtain ⟨more, rfl⟩ : ∃ less, more = less + 1 := ⟨more - 1, by omega⟩
    cases again : Pass.retry? (parser.pass splits tape) with
    | none =>
      rw [attemptsFrom, again] at came
      obtain ⟨rfl, rfl⟩ := Prod.mk.inj came
      obtain ⟨kept, done⟩ := keeps _ List.mem_cons_self
      have beside := pass_beside blind coupled split tapes kept done
      obtain ⟨-, none⟩ := (retry_beside beside).resolve_right fun ⟨place, _, retry, _⟩ => by
        rw [again] at retry
        cases retry
      exact ⟨_, [], by simp [attemptsFrom, none], .cons beside .nil⟩
    | some place =>
      cases next : parser.attemptsFrom (place :: splits) (parser.pass splits tape).tape.rewind fuel with
      | mk following last =>
        rw [attemptsFrom, again] at came
        dsimp only at came
        rw [next] at came
        obtain ⟨rfl, rfl⟩ := Prod.mk.inj came
        obtain ⟨⟨kept, done⟩, later⟩ := List.forall_mem_cons.mp keeps
        have beside := pass_beside blind coupled split tapes kept done
        obtain ⟨_, further, same, retry, places⟩ := (retry_beside beside).resolve_left fun none => by
          rw [again] at none
          cases none.1
        obtain rfl := Option.some.inj (again.symm.trans same)
        obtain ⟨second, others, ran, all⟩ := ih (Nat.le_of_succ_le_succ enough)
          (.cons places split) (coupled.rewind beside.tape) next later
          fun earlier pass whole => final (_ :: earlier) pass (congrArg (List.cons _) whole)
        exact ⟨_, second :: others, by simp [attemptsFrom, retry, ran], .cons beside all⟩

theorem prefer_agree {best later second next : Except ParseError α} (ordered : Ordered R)
    (bests : Agree R best second) (laters : Agree R later next) :
    Agree R (Pass.prefer best later) (Pass.prefer second next) := by
  cases bests with
  | unexpected places =>
    cases laters with
    | unexpected further =>
      simp only [Pass.prefer, ordered places further]
      split
      · exact .unexpected further ..
      · exact .unexpected places ..
    | ok same => exact .ok same
    | lexical => exact .lexical ..
    | internal => exact .internal _
  | _ => exact laters

theorem verdict_agree (ordered : Ordered R) {first second : Pass α} {rest later : List (Pass α)}
    (beside : List.Forall₂ (Pass.Beside R Along) (first :: rest) (second :: later)) :
    Agree R (verdict (first, rest)) (verdict (second, later)) := by
  obtain ⟨here, further⟩ := List.forall₂_cons.mp beside
  have folded {best counts : Except ParseError α} (agree : Agree R best counts) :
      Agree R (rest.foldl (fun best pass => Pass.prefer best pass.outcome) best)
        (later.foldl (fun best pass => Pass.prefer best pass.outcome) counts) := by
    clear beside here
    induction further generalizing best counts with
    | nil => exact agree
    | cons first _ ih => exact ih (prefer_agree ordered agree first.outcome)
  exact folded here.outcome

/-- Parses of two sources that run along one another come to the same but for places. -/
theorem parse_agree {source other : TokenSource} (blind : parser.interpretation.Blind)
    (coupled : Coupled R Kept Done Along) (enough : source.remaining ≤ other.remaining)
    (start : Along { source } { source := other }) (keeps : Keeps Kept Done (parser.passes source))
    (final : ∀ earlier (pass : Pass α), parser.passes source = earlier ++ [pass] → pass.retry? = none) :
    Agree R (parser.parse source) (parser.parse other) := by
  obtain ⟨second, later, ran, all⟩ :=
    attemptsFrom_beside blind coupled enough .nil start rfl keeps final
  have same : parser.attempts other = (second, later) := ran
  rw [parse, parse, same]
  exact verdict_agree coupled.ordered all

end Parser

end JavaFrontend
