import JavaFrontend.Chart.Closure
import JavaFrontend.Proofs.Chart.Column
import Mathlib.Algebra.GroupWithZero.Nat
import Mathlib.Data.List.Perm.Subperm

/-!
Going through the states of a column. One state brings in exactly the rules of the name it waits on,
or the states that waited on its rule with their dots moved on. From this follow what a column keeps
while it grows (`Kept`), what is done with a state for good when it was gone through (`Settled`), and
that the column never has more states than there are keys.
-/

namespace JavaFrontend

variable {α : Type}

/-- The column has got further states or marks. -/
structure Column.Grows (before after : Column α) : Prop where
  index : after.index = before.index
  states : before.states <+: after.states
  marked : ∀ name, before.isMarked name → after.isMarked name

namespace Column.Grows

variable {first second third : Column α}

theorem refl (column : Column α) : Grows column column :=
  ⟨rfl, List.prefix_rfl, fun _ marked => marked⟩

theorem trans (early : Grows first second) (late : Grows second third) : Grows first third :=
  ⟨late.index.trans early.index, early.states.trans late.states,
    fun name marked => late.marked name (early.marked name marked)⟩

theorem insertAll (column : Column α) (segment : Segment) (added : List (State α)) :
    Grows column (column.insertAll segment added) :=
  ⟨index_insertAll _ _ _, prefix_insertAll _ _ _, fun name marked => by simpa using marked⟩

theorem contains {key : StateKey} (grows : Grows first second) (present : first.contains key) :
    second.contains key := by
  obtain ⟨state, member, same⟩ := contains_iff.mp present
  exact contains_iff.mpr ⟨state, grows.states.subset member, same⟩

end Column.Grows

namespace ChartParser

variable {parser : ChartParser α} {earlier : Array (Column α)} {state other : State α}
  {column after : Column α} {name : String} {Q : State α → Prop}

/-! ### Going through one state -/

/-- The states that waited on the rule of a completed state, with their dots moved over what it was
made into. -/
def resumed (parser : ChartParser α) (earlier : Array (Column α)) (state : State α) (found : α) :
    List (State α) :=
  match parser.grammar.rule? state.rule, earlier[state.origin]? with
  | some rule, some origin =>
    (origin.view.waitingOn parser.grammar (.rule rule.name)).map (·.advance found)
  | _, _ => []

theorem mem_resumed {found : α} : other ∈ parser.resumed earlier state found ↔
    ∃ rule origin waiting, parser.grammar.rule? state.rule = some rule ∧
      earlier[state.origin]? = some origin ∧ waiting ∈ origin.states ∧
      waiting.next? parser.grammar = some (.rule rule.name) ∧ waiting.advance found = other := by
  unfold resumed
  split
  · rename_i rule origin ruleFound originFound
    simp [ruleFound, originFound, StateSet.mem_waitingOn, Column.mem_view, and_assoc]
  · rename_i missing
    simp only [List.not_mem_nil, false_iff]
    rintro ⟨rule, origin, _, ruleFound, originFound, -⟩
    exact missing rule origin ruleFound originFound

theorem complete_eq : parser.complete earlier state column = (do
    let found ← parser.interpretation.reduce state.rule state.matched
    return column.insertAll .completed (parser.resumed earlier state found)) := by
  unfold complete resumed
  congr 1
  funext found
  cases parser.grammar.rule? state.rule <;> cases earlier[state.origin]? <;> rfl

theorem process_cases (ran : parser.process earlier state column = .ok after) :
    (∃ name, state.next? parser.grammar = some (.rule name) ∧ after = parser.predict name column) ∨
    (∃ kind, state.next? parser.grammar = some (.token kind) ∧ after = column) ∨
    (state.next? parser.grammar = none ∧ ∃ found,
      parser.interpretation.reduce state.rule state.matched = .ok found ∧
      after = column.insertAll .completed (parser.resumed earlier state found)) := by
  unfold process at ran
  split at ran
  · rename_i name next
    cases ran
    exact .inl ⟨name, next, rfl⟩
  · rename_i kind next
    cases ran
    exact .inr (.inl ⟨kind, next, rfl⟩)
  · rename_i next
    rw [complete_eq] at ran
    cases made : parser.interpretation.reduce state.rule state.matched with
    | error reason =>
      rw [made] at ran
      cases ran
    | ok found =>
      rw [made] at ran
      cases ran
      exact .inr (.inr ⟨next, found, rfl, rfl⟩)

theorem grows_predict (name : String) (column : Column α) :
    column.Grows (parser.predict name column) := by
  unfold predict
  split
  · exact .refl column
  · have marks : column.Grows (column.mark name) :=
      ⟨rfl, List.prefix_rfl, fun _ marked => Column.isMarked_mark.mpr (.inr marked)⟩
    exact marks.trans (.insertAll _ _ _)

theorem mem_of_mem_predict (member : other ∈ (parser.predict name column).states) :
    other ∈ column.states ∨
      ∃ id ∈ parser.predictions.get name, other = .predicted id column.index := by
  unfold predict at member
  split at member
  · exact .inl member
  · rcases Column.mem_of_mem_insertAll member with old | new
    · exact .inl old
    · obtain ⟨id, known, rfl⟩ := List.mem_map.mp new
      exact .inr ⟨id, known, rfl⟩

theorem grows_process (ran : parser.process earlier state column = .ok after) :
    column.Grows after := by
  obtain ⟨name, -, rfl⟩ | ⟨kind, -, rfl⟩ | ⟨-, found, -, rfl⟩ := process_cases ran
  · exact grows_predict name column
  · exact .refl _
  · exact .insertAll _ _ _

/-! ### What is kept while a column grows -/

/-- The column has the rules of each name that is marked in it. -/
def Answered (parser : ChartParser α) (column : Column α) : Prop :=
  ∀ name, column.isMarked name → ∀ id ∈ parser.predictions.get name,
    column.contains ⟨id, 0, column.index⟩

/-- What a state with the property brings into a column of that index has the property. -/
structure Sustains (parser : ChartParser α) (earlier : Array (Column α)) (index : Nat)
    (Q : State α → Prop) : Prop where
  predicted : ∀ state name id, Q state → state.next? parser.grammar = some (.rule name) →
    id ∈ parser.predictions.get name → Q (.predicted id index)
  completed : ∀ state found other, Q state → state.next? parser.grammar = none →
    parser.interpretation.reduce state.rule state.matched = .ok found →
    other ∈ parser.resumed earlier state found → Q other

/-- The column has one state of each key, and all have the property. -/
structure Kept (parser : ChartParser α) (Q : State α → Prop) (column : Column α) : Prop where
  distinct : column.Distinct
  answered : parser.Answered column
  all : ∀ state ∈ column.states, Q state

theorem answered_predict (answered : parser.Answered column) (name : String) :
    parser.Answered (parser.predict name column) ∧ (parser.predict name column).isMarked name := by
  unfold predict
  split
  · rename_i marked
    exact ⟨answered, marked⟩
  · refine ⟨?_, by simp [Column.isMarked_mark]⟩
    intro other marked id known
    rw [Column.isMarked_insertAll, Column.isMarked_mark] at marked
    rw [Column.contains_insertAll, Column.index_insertAll]
    rcases marked with rfl | marked
    · exact .inr ⟨.predicted id column.index, List.mem_map_of_mem known, rfl⟩
    · exact .inl (answered other marked id known)

theorem kept_empty (index : Nat) : parser.Kept Q ({ index } : Column α) where
  distinct := List.nodup_nil
  answered name marked := by simp [Column.isMarked] at marked
  all state member := by cases member

theorem Kept.predict (kept : parser.Kept Q column)
    (new : ∀ id ∈ parser.predictions.get name, Q (.predicted id column.index)) :
    parser.Kept Q (parser.predict name column) where
  distinct := by
    unfold ChartParser.predict
    split
    · exact kept.distinct
    · exact Column.Distinct.insertAll kept.distinct
  answered := (answered_predict kept.answered name).1
  all := by
    intro state member
    rcases mem_of_mem_predict member with old | ⟨id, known, rfl⟩
    · exact kept.all state old
    · exact new id known

theorem Kept.insertAll {segment : Segment} {added : List (State α)} (kept : parser.Kept Q column)
    (new : ∀ state ∈ added, Q state) : parser.Kept Q (column.insertAll segment added) where
  distinct := kept.distinct.insertAll
  answered := by
    intro name marked id known
    rw [Column.isMarked_insertAll] at marked
    rw [Column.index_insertAll]
    exact (Column.Grows.insertAll _ _ _).contains (kept.answered name marked id known)
  all := by
    intro state member
    rcases Column.mem_of_mem_insertAll member with old | fresh
    · exact kept.all state old
    · exact new state fresh

theorem Kept.process (kept : parser.Kept Q column)
    (sustained : parser.Sustains earlier column.index Q) (member : state ∈ column.states)
    (ran : parser.process earlier state column = .ok after) : parser.Kept Q after := by
  have holds := kept.all state member
  obtain ⟨name, next, rfl⟩ | ⟨kind, -, rfl⟩ | ⟨next, found, made, rfl⟩ := process_cases ran
  · exact kept.predict fun id known => sustained.predicted state name id holds next known
  · exact kept
  · exact kept.insertAll fun other fresh =>
      sustained.completed state found other holds next made fresh

/-! ### What is left to be done for a state that was gone through: nothing -/

/-- The column has all that the state brings in. -/
structure Settled (parser : ChartParser α) (earlier : Array (Column α)) (column : Column α)
    (state : State α) : Prop where
  predicted : ∀ name id, state.next? parser.grammar = some (.rule name) →
    id ∈ parser.predictions.get name → column.contains ⟨id, 0, column.index⟩
  completed : ∀ rule origin waiting, state.next? parser.grammar = none →
    parser.grammar.rule? state.rule = some rule → earlier[state.origin]? = some origin →
    waiting ∈ origin.states → waiting.next? parser.grammar = some (.rule rule.name) →
    column.contains ⟨waiting.rule, waiting.dot + 1, waiting.origin⟩

theorem Settled.of_grows (settled : parser.Settled earlier column state)
    (grows : column.Grows after) : parser.Settled earlier after state where
  predicted name id next known := by
    rw [grows.index]
    exact grows.contains (settled.predicted name id next known)
  completed rule origin waiting next ruleFound originFound member waits :=
    grows.contains (settled.completed rule origin waiting next ruleFound originFound member waits)

/-- Going through a state settles it. -/
theorem settled_process (answered : parser.Answered column)
    (ran : parser.process earlier state column = .ok after) :
    parser.Settled earlier after state := by
  obtain ⟨name, next, rfl⟩ | ⟨kind, next, rfl⟩ | ⟨next, found, -, rfl⟩ := process_cases ran
  · obtain ⟨answered, marked⟩ := answered_predict answered name
    refine ⟨?_, fun rule origin waiting completed => by simp [next] at completed⟩
    intro other id same known
    rw [next] at same
    cases same
    exact answered name marked id known
  · exact ⟨fun other id same => by simp [next] at same,
      fun rule origin waiting completed => by simp [next] at completed⟩
  · refine ⟨fun other id same => by simp [next] at same, ?_⟩
    intro rule origin waiting _ ruleFound originFound member waits
    exact Column.contains_insertAll.mpr (.inr ⟨waiting.advance found,
      mem_resumed.mpr ⟨rule, origin, waiting, ruleFound, originFound, member, waits, rfl⟩,
      State.key_advance waiting found⟩)

/-! ### The bound on the number of states -/

/-- The state is a rule of the grammar with its dot within it, from a column up to the index. -/
def Fits (parser : ChartParser α) (index : Nat) (state : State α) : Prop :=
  ∃ rule, parser.grammar.rule? state.rule = some rule ∧ state.dot ≤ rule.size ∧
    state.origin ≤ index

/-- The keys that states of a column may have. -/
private def possibleKeys (parser : ChartParser α) (index : Nat) : List StateKey :=
  (List.range (index + 1)).flatMap fun origin =>
    parser.grammar.rules.toList.zipIdx.flatMap fun (rule, id) =>
      (List.range (rule.size + 1)).map fun dot => ⟨id, dot, origin⟩

theorem dottedRules_eq : parser.dottedRules =
    (parser.grammar.rules.toList.map fun rule => rule.size + 1).sum := by
  unfold dottedRules
  rw [← Array.foldl_toList, List.sum_eq_foldl, List.foldl_map]

private theorem length_possibleKeys (index : Nat) :
    (possibleKeys parser index).length = (index + 1) * parser.dottedRules := by
  have perColumn (rules : List Rule) (first : Nat) :
      ((rules.zipIdx first).map fun entry => entry.1.size + 1).sum =
        (rules.map fun rule => rule.size + 1).sum := by
    induction rules generalizing first with
    | nil => rfl
    | cons rule rules ih => simp [List.zipIdx_cons, ih]
  simp [possibleKeys, List.length_flatMap, perColumn, dottedRules_eq]

private theorem key_mem_possibleKeys {index : Nat} (fits : parser.Fits index state) :
    state.key ∈ possibleKeys parser index := by
  obtain ⟨rule, found, dot, origin⟩ := fits
  refine List.mem_flatMap.mpr ⟨state.origin, List.mem_range.mpr (by omega), ?_⟩
  refine List.mem_flatMap.mpr ⟨(rule, state.rule), ?_, ?_⟩
  · rw [List.mem_zipIdx_iff_getElem?]
    simpa [Grammar.rule?] using found
  · exact List.mem_map.mpr ⟨state.dot, List.mem_range.mpr (by omega), rfl⟩

/-- A column has no more states than there are keys for them. -/
theorem length_states_le_capacity (distinct : column.Distinct)
    (fit : ∀ state ∈ column.states, parser.Fits column.index state) :
    column.states.length ≤ parser.capacity column := by
  have inside : column.states.map State.key ⊆ possibleKeys parser column.index := by
    intro key member
    obtain ⟨state, present, rfl⟩ := List.mem_map.mp member
    exact key_mem_possibleKeys (fit state present)
  have bound := (List.subperm_of_subset distinct inside).length_le
  rwa [List.length_map, length_possibleKeys] at bound

/-- And no more come in while it is closed. -/
theorem Kept.length_le (kept : parser.Kept Q after) (grows : column.Grows after)
    (fit : ∀ state, Q state → parser.Fits column.index state) :
    after.states.length ≤ parser.capacity column := by
  have bound := length_states_le_capacity kept.distinct
    fun state member => grows.index ▸ fit state (kept.all state member)
  rwa [capacity, grows.index] at bound

end ChartParser

end JavaFrontend
