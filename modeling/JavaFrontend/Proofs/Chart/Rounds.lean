import JavaFrontend.Proofs.Chart.Closure
import Mathlib.Logic.Relation

/-!
The closing of a column, round by round. A round goes through the first state that was not gone
through yet, and what it brings in is left to later rounds; how many there may be is not said. That
they come to an end follows from what every round keeps (`Covers`): the states that were gone
through are the first of the column, in their order, and a column has no more states than there are
keys. So the parser, which sets a bound on the rounds, comes to what the last of them leaves
(`close_eq_outcome`), and what it closes lacks nothing that its states bring in (`close_spec`).
-/

namespace JavaFrontend

variable {α : Type}

/-- A column that is being closed, and what was done for it so far. -/
structure Agenda (α : Type) where
  column : Column α
  /-- The states that were gone through, one in each round. -/
  visited : List (State α) := []
  /-- The states for which it was asked what their rules are made into. -/
  reduced : List (State α) := []
  /-- Why there is no answer for the last of them. -/
  failure : Option ReduceError := none

namespace Agenda

/-- The state to go through next, unless the closing has failed or nothing is left. -/
def current? (agenda : Agenda α) : Option (State α) :=
  match agenda.failure with
  | none => agenda.column.get? agenda.visited.length
  | some _ => none

/-- What the closing has come to if it is over. -/
def outcome (agenda : Agenda α) : Except ReduceError (Column α) :=
  match agenda.failure with
  | none => .ok agenda.column
  | some reason => .error reason

variable {agenda : Agenda α} {state : State α}

theorem current?_eq_some_iff : agenda.current? = some state ↔
    agenda.failure = none ∧ agenda.column.states[agenda.visited.length]? = some state := by
  unfold current?
  split <;> rename_i fate
  · rw [Column.get?_eq, and_iff_right fate]
  · simp [fate]

theorem current?_eq_none_iff : agenda.current? = none ↔
    (agenda.failure = none → agenda.column.states.length ≤ agenda.visited.length) := by
  unfold current?
  split <;> rename_i fate
  · rw [Column.get?_eq, List.getElem?_eq_none_iff, forall_prop_of_true fate]
  · simp [fate]

theorem outcome_of_running (running : agenda.failure = none) :
    agenda.outcome = .ok agenda.column := by
  rw [outcome, running]

theorem outcome_of_failed {reason : ReduceError} (failed : agenda.failure = some reason) :
    agenda.outcome = .error reason := by
  rw [outcome, failed]

theorem outcome_eq_ok_iff {closed : Column α} :
    agenda.outcome = .ok closed ↔ agenda.failure = none ∧ agenda.column = closed := by
  unfold outcome
  split <;> simp_all

end Agenda

namespace ChartParser

/-- A round goes through one state. -/
inductive Round (parser : ChartParser α) (earlier : Array (Column α)) :
    Agenda α → Agenda α → Prop where
  /-- A state that waits on a token brings in nothing. -/
  | waits {agenda : Agenda α} {state : State α} {kind : Kind}
      (here : agenda.current? = some state)
      (next : state.next? parser.grammar = some (.token kind)) :
    Round parser earlier agenda { agenda with visited := agenda.visited ++ [state] }
  /-- A state that waits on a name brings in the rules of the name. -/
  | predicts {agenda : Agenda α} {state : State α} {name : String}
      (here : agenda.current? = some state)
      (next : state.next? parser.grammar = some (.rule name)) :
    Round parser earlier agenda { agenda with
      column := parser.predict name agenda.column
      visited := agenda.visited ++ [state] }
  /-- A completed state moves the dots of those that waited on its rule. -/
  | completes {agenda : Agenda α} {state : State α} {found : α}
      (here : agenda.current? = some state) (next : state.next? parser.grammar = none)
      (made : parser.interpretation.reduce state.rule state.matched = .ok found) :
    Round parser earlier agenda { agenda with
      column := agenda.column.insertAll .completed (parser.resumed earlier state found)
      visited := agenda.visited ++ [state]
      reduced := agenda.reduced ++ [state] }
  /-- A completed state that cannot be made into anything ends the closing. -/
  | fails {agenda : Agenda α} {state : State α} {reason : ReduceError}
      (here : agenda.current? = some state) (next : state.next? parser.grammar = none)
      (refused : parser.interpretation.reduce state.rule state.matched = .error reason) :
    Round parser earlier agenda { agenda with
      visited := agenda.visited ++ [state]
      reduced := agenda.reduced ++ [state]
      failure := some reason }

/-- The agenda comes about in some rounds from a column of which nothing was gone through. -/
def Reaches (parser : ChartParser α) (earlier : Array (Column α)) (column : Column α) :
    Agenda α → Prop :=
  Relation.ReflTransGen (parser.Round earlier) { column }

variable {parser : ChartParser α} {earlier : Array (Column α)} {agenda next last : Agenda α}
  {state : State α} {column after : Column α} {Q : State α → Prop}

/-! ### One round -/

theorem process_completed (completed : state.next? parser.grammar = none) :
    parser.process earlier state column =
      (parser.interpretation.reduce state.rule state.matched).map fun found =>
        column.insertAll .completed (parser.resumed earlier state found) := by
  rw [process, completed]
  dsimp only
  rw [complete_eq]
  cases parser.interpretation.reduce state.rule state.matched <;> rfl

/-- What the parser does with the state of a round comes to what the round leaves. Only if the state
is completed, it is asked what its rule is made into. -/
theorem Round.processes (round : parser.Round earlier agenda next) :
    ∃ state, agenda.current? = some state ∧
      parser.process earlier state agenda.column = next.outcome ∧
      next.visited = agenda.visited ++ [state] ∧
      next.reduced = agenda.reduced ++ [state].filter (·.isCompleted parser.grammar) ∧
      (next.failure ≠ none → next.column = agenda.column) := by
  cases round with
  | @waits state _ here next =>
    obtain ⟨running, -⟩ := Agenda.current?_eq_some_iff.mp here
    refine ⟨state, here, ?_, rfl, by simp [State.isCompleted, next], fun _ => rfl⟩
    rw [process, next, Agenda.outcome_of_running]
    exacts [rfl, running]
  | @predicts state _ here next =>
    obtain ⟨running, -⟩ := Agenda.current?_eq_some_iff.mp here
    refine ⟨state, here, ?_, rfl, by simp [State.isCompleted, next],
      fun failed => absurd running failed⟩
    rw [process, next, Agenda.outcome_of_running]
    exacts [rfl, running]
  | @completes state _ here next made =>
    obtain ⟨running, -⟩ := Agenda.current?_eq_some_iff.mp here
    refine ⟨state, here, ?_, rfl, by simp [State.isCompleted, next],
      fun failed => absurd running failed⟩
    rw [process_completed next, made, Agenda.outcome_of_running]
    exacts [rfl, running]
  | @fails state _ here next refused =>
    refine ⟨state, here, ?_, rfl, by simp [State.isCompleted, next], fun _ => rfl⟩
    rw [process_completed next, refused]
    exact (Agenda.outcome_of_failed rfl).symm

/-- There is a round as long as there is a state to go through. -/
theorem exists_round (here : agenda.current? = some state) :
    ∃ next, parser.Round earlier agenda next := by
  cases next : state.next? parser.grammar with
  | none =>
    cases made : parser.interpretation.reduce state.rule state.matched with
    | ok found => exact ⟨_, .completes here next made⟩
    | error reason => exact ⟨_, .fails here next made⟩
  | some part =>
    cases part with
    | token kind => exact ⟨_, .waits here next⟩
    | rule name => exact ⟨_, .predicts here next⟩

theorem current?_eq_none_iff_stuck : agenda.current? = none ↔
    ∀ next, ¬ parser.Round earlier agenda next := by
  constructor
  · intro ended next round
    obtain ⟨state, here, -⟩ := round.processes
    rw [ended] at here
    cases here
  · intro stuck
    by_contra left
    obtain ⟨state, here⟩ := Option.ne_none_iff_exists'.mp left
    obtain ⟨next, round⟩ : ∃ next, parser.Round earlier agenda next := exists_round here
    exact stuck next round

/-- What a round leaves is settled by the agenda before it. -/
theorem rightUnique_round : Relator.RightUnique (parser.Round earlier) := by
  intro agenda first second one other
  cases one <;> cases other <;> simp_all

/-! ### What all rounds keep -/

/-- The states that were gone through are the first of the column, which has grown from the other
one. They are settled unless the last of them has failed, and it was asked what those are made into
that are completed. -/
structure Covers (parser : ChartParser α) (earlier : Array (Column α)) (Q : State α → Prop)
    (start : Column α) (agenda : Agenda α) : Prop where
  grows : start.Grows agenda.column
  kept : parser.Kept Q agenda.column
  visited : agenda.visited <+: agenda.column.states
  reduced : agenda.reduced = agenda.visited.filter (·.isCompleted parser.grammar)
  settled : agenda.failure = none →
    ∀ state ∈ agenda.visited, parser.Settled earlier agenda.column state

theorem Covers.start (kept : parser.Kept Q column) : parser.Covers earlier Q column { column } :=
  ⟨.refl column, kept, List.nil_prefix, rfl, fun _ _ member => absurd member List.not_mem_nil⟩

theorem Covers.round (covers : parser.Covers earlier Q column agenda)
    (sustained : parser.Sustains earlier column.index Q)
    (round : parser.Round earlier agenda next) : parser.Covers earlier Q column next := by
  obtain ⟨state, here, ran, visited, reduced, failed⟩ := round.processes
  obtain ⟨running, found⟩ := Agenda.current?_eq_some_iff.mp here
  -- What was gone through is followed by this state, in the column as it was.
  have further : agenda.visited ++ [state] <+: agenda.column.states := by
    obtain ⟨rest, same⟩ := covers.visited
    rw [← same, List.getElem?_append_right (Nat.le_refl _), Nat.sub_self,
      ← List.head?_eq_getElem?, List.head?_eq_some_iff] at found
    obtain ⟨others, rfl⟩ := found
    exact ⟨others, by rw [List.append_assoc, ← same]; rfl⟩
  have reducedAll : next.reduced = next.visited.filter (·.isCompleted parser.grammar) := by
    rw [reduced, visited, List.filter_append, covers.reduced]
  cases fate : next.failure with
  | some reason =>
    have same : next.column = agenda.column := failed (by simp [fate])
    exact ⟨same ▸ covers.grows, same ▸ covers.kept, by rwa [visited, same], reducedAll,
      fun succeeded => by simp [fate] at succeeded⟩
  | none =>
    rw [Agenda.outcome_of_running fate] at ran
    have grows := grows_process ran
    refine ⟨covers.grows.trans grows, ?_, ?_, reducedAll, fun _ other member => ?_⟩
    · exact covers.kept.process (covers.grows.index ▸ sustained) (List.mem_of_getElem? found) ran
    · rw [visited]
      exact further.trans grows.states
    · rw [visited] at member
      rcases List.mem_append.mp member with before | now
      · exact (covers.settled running other before).of_grows grows
      · obtain rfl := List.mem_singleton.mp now
        exact settled_process covers.kept.answered ran

theorem covers_of_reaches (kept : parser.Kept Q column)
    (sustained : parser.Sustains earlier column.index Q)
    (reached : parser.Reaches earlier column agenda) : parser.Covers earlier Q column agenda := by
  induction reached with
  | refl => exact .start kept
  | tail _ round ih => exact ih.round sustained round

theorem Covers.length_le (covers : parser.Covers earlier Q column agenda)
    (fit : ∀ state, Q state → parser.Fits column.index state) :
    agenda.visited.length ≤ parser.capacity column :=
  Nat.le_trans covers.visited.length_le (covers.kept.length_le covers.grows fit)

/-- No state is gone through twice. -/
theorem Covers.nodup_visited (covers : parser.Covers earlier Q column agenda) :
    (agenda.visited.map State.key).Nodup :=
  covers.kept.distinct.sublist (covers.visited.sublist.map _)

/-- A completed state has its dot at the end, so it is told apart by its rule and its origin. -/
theorem Covers.nodup_reduced (covers : parser.Covers earlier Q column agenda)
    (fit : ∀ state, Q state → parser.Fits column.index state) :
    (agenda.reduced.map fun state => (state.rule, state.origin)).Nodup := by
  have atEnd (state : State α) (member : state ∈ agenda.reduced) : ∃ rule,
      parser.grammar.rule? state.rule = some rule ∧ state.dot = rule.size := by
    rw [covers.reduced, List.mem_filter] at member
    obtain ⟨rule, found, dot, -⟩ :=
      fit state (covers.kept.all state (covers.visited.subset member.1))
    exact ⟨rule, found, Nat.le_antisymm dot ((State.isCompleted_iff found).mp member.2)⟩
  have distinct : (agenda.reduced.map State.key).Nodup := by
    rw [covers.reduced]
    exact covers.nodup_visited.sublist (List.filter_sublist.map _)
  rw [List.Nodup, List.pairwise_map] at distinct ⊢
  refine distinct.imp_of_mem fun {first second} firstMember secondMember apart same => apart ?_
  obtain ⟨rule, origin⟩ := Prod.mk.inj same
  obtain ⟨_, found, dot⟩ := atEnd first firstMember
  obtain ⟨_, other, dotThere⟩ := atEnd second secondMember
  rw [← rule, found] at other
  cases other
  rw [State.key, State.key, rule, origin, dot, dotThere]

theorem made_of_reaches (reached : parser.Reaches earlier column agenda)
    (running : agenda.failure = none) : ∀ state ∈ agenda.reduced,
      ∃ found, parser.interpretation.reduce state.rule state.matched = .ok found := by
  induction reached with
  | refl => exact fun state member => absurd member List.not_mem_nil
  | tail _ round ih =>
    cases round with
    | waits => exact ih running
    | predicts => exact ih running
    | completes _ _ made => exact List.forall_mem_append.mpr ⟨ih running, by simpa using ⟨_, made⟩⟩
    | fails => cases running

/-- Nothing fails if a completed state can always be made into something. -/
theorem running_of_reaches (kept : parser.Kept Q column)
    (sustained : parser.Sustains earlier column.index Q)
    (made : ∀ state, Q state → state.next? parser.grammar = none →
      ∃ found, parser.interpretation.reduce state.rule state.matched = .ok found)
    (reached : parser.Reaches earlier column agenda) : agenda.failure = none := by
  rcases reached.cases_tail with rfl | ⟨before, came, round⟩
  · rfl
  · cases round with
    | waits here => exact (Agenda.current?_eq_some_iff.mp here).1
    | predicts here => exact (Agenda.current?_eq_some_iff.mp here).1
    | completes here => exact (Agenda.current?_eq_some_iff.mp here).1
    | @fails state _ here next refused =>
      have member := List.mem_of_getElem? (Agenda.current?_eq_some_iff.mp here).2
      have holds := (covers_of_reaches kept sustained came).kept.all state member
      obtain ⟨found, answer⟩ := made state holds next
      cases refused.symm.trans answer

/-! ### The end of the rounds -/

theorem Round.length (round : parser.Round earlier agenda next) :
    next.visited.length = agenda.visited.length + 1 := by
  obtain ⟨state, -, -, visited, -⟩ := round.processes
  rw [visited, List.length_append, List.length_singleton]

/-- Whatever was done so far, the rounds come to an end. -/
theorem exists_last (kept : parser.Kept Q column)
    (sustained : parser.Sustains earlier column.index Q)
    (fit : ∀ state, Q state → parser.Fits column.index state)
    (reached : parser.Reaches earlier column agenda) :
    ∃ last, parser.Reaches earlier column last ∧ last.current? = none := by
  induction left : parser.capacity column - agenda.visited.length using Nat.strongRecOn
    generalizing agenda with
  | ind left ih =>
    cases here : agenda.current? with
    | none => exact ⟨agenda, reached, here⟩
    | some state =>
      obtain ⟨next, round⟩ : ∃ next, parser.Round earlier agenda next := exists_round here
      have further : parser.Reaches earlier column next := reached.tail round
      have bound := (covers_of_reaches kept sustained further).length_le fit
      have more := round.length
      exact ih _ (by omega) further rfl

/-- All rounds lead to the same end. -/
theorem leads_to_last (reached : parser.Reaches earlier column agenda)
    (finished : parser.Reaches earlier column last) (ended : last.current? = none) :
    Relation.ReflTransGen (parser.Round earlier) agenda last := by
  rcases Relation.ReflTransGen.total_of_right_unique rightUnique_round reached finished with
    further | beyond
  · exact further
  · rcases beyond.cases_head with rfl | ⟨next, round, -⟩
    · exact .refl
    · exact absurd round (current?_eq_none_iff_stuck.mp ended next)

theorem closeFrom_succ {fuel n : Nat} (found : column.get? n = some state) :
    parser.closeFrom earlier (fuel + 1) n column = (do
      let next ← parser.process earlier state column
      parser.closeFrom earlier fuel (n + 1) next) := by
  rw [closeFrom, found]

/-- The parser does the same rounds one by one. -/
theorem closeFrom_of_reaches (reached : parser.Reaches earlier column agenda) (fuel : Nat) :
    parser.closeFrom earlier (agenda.visited.length + fuel) 0 column =
      match agenda.failure with
      | none => parser.closeFrom earlier fuel agenda.visited.length agenda.column
      | some reason => .error reason := by
  induction reached generalizing fuel with
  | refl => rw [List.length_nil, Nat.zero_add]
  | @tail agenda next _ round ih =>
    obtain ⟨state, here, ran, -⟩ := round.processes
    obtain ⟨running, found⟩ := Agenda.current?_eq_some_iff.mp here
    rw [round.length, Nat.add_assoc, Nat.add_comm 1, ih, running]
    dsimp only
    rw [closeFrom_succ (Column.get?_eq _ ▸ found), ran]
    cases fate : next.failure with
    | none => rw [Agenda.outcome_of_running fate]; rfl
    | some reason => rw [Agenda.outcome_of_failed fate]; rfl

/-- So it comes to what is left when they are over, if it does not stop before. -/
theorem close_eq_outcome (reached : parser.Reaches earlier column last)
    (ended : last.current? = none) (bound : last.visited.length ≤ parser.capacity column) :
    parser.close earlier column = last.outcome := by
  have spare : parser.capacity column + 1 =
      last.visited.length + (parser.capacity column - last.visited.length + 1) := by omega
  rw [close, spare, closeFrom_of_reaches reached]
  cases fate : last.failure with
  | some reason => rw [Agenda.outcome_of_failed fate]
  | none =>
    have done := Agenda.current?_eq_none_iff.mp ended fate
    rw [Agenda.outcome_of_running fate]
    dsimp only
    rw [closeFrom, Column.get?_eq, List.getElem?_eq_none_iff.mpr done]
    rfl

/-- The rounds end where the parser does. If nothing has failed, all states of the column were gone
through by then. -/
theorem rounds_end (kept : parser.Kept Q column)
    (sustained : parser.Sustains earlier column.index Q)
    (fit : ∀ state, Q state → parser.Fits column.index state) :
    ∃ last, parser.Reaches earlier column last ∧ last.current? = none ∧
      parser.close earlier column = last.outcome ∧
      (last.failure = none → last.visited = last.column.states) := by
  obtain ⟨last, reached, ended⟩ := exists_last kept sustained fit .refl
  have covers := covers_of_reaches kept sustained reached
  refine ⟨last, reached, ended, close_eq_outcome reached ended (covers.length_le fit),
    fun running => ?_⟩
  exact covers.visited.eq_of_length_le (Agenda.current?_eq_none_iff.mp ended running)

/-! ### What a closed column is -/

/-- A closed column has all that its states bring in. -/
theorem close_spec (kept : parser.Kept Q column)
    (sustained : parser.Sustains earlier column.index Q)
    (fit : ∀ state, Q state → parser.Fits column.index state)
    (ran : parser.close earlier column = .ok after) :
    column.Grows after ∧ parser.Kept Q after ∧
      ∀ state ∈ after.states, parser.Settled earlier after state := by
  obtain ⟨last, reached, -, outcome, whole⟩ := rounds_end kept sustained fit
  have covers := covers_of_reaches kept sustained reached
  obtain ⟨running, rfl⟩ := Agenda.outcome_eq_ok_iff.mp (outcome.symm.trans ran)
  exact ⟨covers.grows, covers.kept, whole running ▸ covers.settled running⟩

/-- Closing fails only if a completed state cannot be made into anything. -/
theorem exists_close_eq_ok (kept : parser.Kept Q column)
    (sustained : parser.Sustains earlier column.index Q)
    (fit : ∀ state, Q state → parser.Fits column.index state)
    (made : ∀ state, Q state → state.next? parser.grammar = none →
      ∃ found, parser.interpretation.reduce state.rule state.matched = .ok found) :
    ∃ after, parser.close earlier column = .ok after := by
  obtain ⟨last, reached, -, outcome, -⟩ := rounds_end kept sustained fit
  have running := running_of_reaches kept sustained made reached
  exact ⟨last.column, outcome.trans (Agenda.outcome_of_running running)⟩

end ChartParser

end JavaFrontend
