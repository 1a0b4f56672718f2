import JavaFrontend.Chart.Column
import Mathlib.Data.List.Nodup

/-!
Columns as the lists of their states. Inserting a state appends it, unless a state of its key is
there; nothing is ever taken out or moved. What a parser asks about a column is asked about this
list, apart from the order of the answers.
-/

namespace JavaFrontend

variable {α : Type}

namespace State

variable {state : State α} {grammar : Grammar}

theorem next?_eq_some_iff {part : Part} : state.next? grammar = some part ↔
    ∃ rule, grammar.rule? state.rule = some rule ∧ rule.parts[state.dot]? = some part := by
  simp [next?, Grammar.partAt?, Option.bind_eq_some_iff]

theorem isCompleted_iff {rule : Rule} (found : grammar.rule? state.rule = some rule) :
    state.isCompleted grammar ↔ rule.size ≤ state.dot := by
  simp [isCompleted, next?, Grammar.partAt?, found, Rule.size]

/-- The part behind the dot divides the rule. -/
theorem parts_eq_of_next {rule : Rule} {part : Part}
    (found : grammar.rule? state.rule = some rule) (next : state.next? grammar = some part) :
    state.dot < rule.size ∧
      rule.parts = rule.parts.take state.dot ++ part :: rule.parts.drop (state.dot + 1) := by
  obtain ⟨other, known, behind⟩ := next?_eq_some_iff.mp next
  rw [found] at known
  cases known
  obtain ⟨bound, same⟩ := List.getElem?_eq_some_iff.mp behind
  refine ⟨bound, ?_⟩
  rw [← same, ← List.drop_eq_getElem_cons bound, List.take_append_drop]

@[simp] theorem key_advance (state : State α) (found : α) :
    (state.advance found).key = ⟨state.rule, state.dot + 1, state.origin⟩ := by
  simp [key, advance, dot]

end State

namespace StateSet

variable {set : StateSet α} {grammar : Grammar} {state : State α}

theorem mem_waitingOn {part : Part} : state ∈ set.waitingOn grammar part ↔
    state ∈ set.states ∧ state.next? grammar = some part := by
  simp [waitingOn, beq_iff_eq]

theorem mem_awaitedKinds {kind : Kind} : kind ∈ set.awaitedKinds grammar ↔
    ∃ state ∈ set.states, state.next? grammar = some (.token kind) := by
  have isKind (part : Part) : part.kind? = some kind ↔ part = .token kind := by
    cases part <;> simp [Part.kind?]
  simp only [awaitedKinds, awaited, List.mem_filter, Kind.mem_all, true_and,
    List.contains_iff_mem, List.mem_filterMap, Array.mem_toList_iff, isKind]
  constructor
  · rintro ⟨part, ⟨state, member, next⟩, rfl⟩
    exact ⟨state, member, next⟩
  · rintro ⟨state, member, next⟩
    exact ⟨.token kind, ⟨state, member, next⟩, rfl⟩

end StateSet

namespace Column

variable {column : Column α} {segment : Segment} {state other : State α} {added : List (State α)}
  {key : StateKey} {name : String}

/-- The states in the order in which they came in. -/
def states (column : Column α) : List (State α) := column.entries.toList.map (·.state)

@[simp] theorem states_empty (index : Nat) : ({ index } : Column α).states = [] := rfl

theorem isEmpty_iff : column.isEmpty ↔ column.states = [] := by
  simp [isEmpty, states]

theorem get?_eq (n : Nat) : column.get? n = column.states[n]? := by
  simp [get?, states]

theorem contains_iff : column.contains key ↔ ∃ state ∈ column.states, state.key = key := by
  simp [contains, states, column.mem_keys]

/-- The view shows the states of the column, in another order. -/
theorem mem_view : state ∈ column.view.states ↔ state ∈ column.states := by
  rw [← Array.mem_toList_iff]
  simp only [view, StateSet.merge, Column.segment, states, List.foldl_cons, List.foldl_nil,
    Array.toList_append, List.mem_append, Array.mem_toList_iff, Array.mem_filterMap,
    Option.ite_none_right_eq_some, Option.some.injEq, List.mem_map, List.not_mem_nil, false_or]
  constructor
  · rintro ((⟨entry, member, -, rfl⟩ | ⟨entry, member, -, rfl⟩) | ⟨entry, member, -, rfl⟩) <;>
      exact ⟨entry, member, rfl⟩
  · rintro ⟨entry, member, rfl⟩
    cases came : entry.segment with
    | scanned => exact .inl (.inl ⟨entry, member, came, rfl⟩)
    | completed => exact .inl (.inr ⟨entry, member, came, rfl⟩)
    | predicted => exact .inr ⟨entry, member, came, rfl⟩

/-! ### Inserting states -/

theorem states_insert (column : Column α) (segment : Segment) (state : State α) :
    (column.insert segment state).states =
      if column.contains state.key then column.states else column.states ++ [state] := by
  unfold insert
  split <;> simp [states]

@[simp] theorem index_insert (column : Column α) (segment : Segment) (state : State α) :
    (column.insert segment state).index = column.index := by
  unfold insert
  split <;> rfl

@[simp] theorem isMarked_insert (column : Column α) (segment : Segment) (state : State α)
    (name : String) : (column.insert segment state).isMarked name = column.isMarked name := by
  unfold insert
  split <;> rfl

theorem prefix_insert (column : Column α) (segment : Segment) (state : State α) :
    column.states <+: (column.insert segment state).states := by
  rw [states_insert]
  split
  · exact List.prefix_rfl
  · exact List.prefix_append _ _

theorem contains_insert :
    (column.insert segment state).contains key ↔ column.contains key ∨ state.key = key := by
  rw [contains_iff, contains_iff, states_insert]
  split
  · rename_i present
    rw [contains_iff] at present
    constructor
    · exact .inl
    · rintro (known | rfl)
      · exact known
      · exact present
  · simp [or_and_right, exists_or]

/-- The keys of the states, each once. -/
def Distinct (column : Column α) : Prop := (column.states.map State.key).Nodup

theorem Distinct.insert (distinct : column.Distinct) :
    (column.insert segment state).Distinct := by
  unfold Distinct
  rw [states_insert]
  split
  · exact distinct
  · rename_i fresh
    rw [List.map_append, List.map_singleton]
    refine List.nodup_append.mpr ⟨distinct, List.nodup_singleton _, ?_⟩
    intro known member _ single same
    obtain ⟨state, present, rfl⟩ := List.mem_map.mp member
    exact fresh (contains_iff.mpr ⟨state, present, same.trans (List.mem_singleton.mp single)⟩)

@[simp] theorem insertAll_nil (column : Column α) (segment : Segment) :
    column.insertAll segment [] = column := rfl

theorem insertAll_cons (column : Column α) (segment : Segment) (state : State α)
    (added : List (State α)) : column.insertAll segment (state :: added) =
      (column.insert segment state).insertAll segment added := rfl

@[simp] theorem index_insertAll (column : Column α) (segment : Segment) (added : List (State α)) :
    (column.insertAll segment added).index = column.index := by
  induction added generalizing column with
  | nil => rfl
  | cons state added ih => rw [insertAll_cons, ih, index_insert]

@[simp] theorem isMarked_insertAll (column : Column α) (segment : Segment)
    (added : List (State α)) (name : String) :
    (column.insertAll segment added).isMarked name = column.isMarked name := by
  induction added generalizing column with
  | nil => rfl
  | cons state added ih => rw [insertAll_cons, ih, isMarked_insert]

theorem prefix_insertAll (column : Column α) (segment : Segment) (added : List (State α)) :
    column.states <+: (column.insertAll segment added).states := by
  induction added generalizing column with
  | nil => exact List.prefix_rfl
  | cons state added ih => exact (prefix_insert column segment state).trans (ih _)

theorem contains_insertAll : (column.insertAll segment added).contains key ↔
    column.contains key ∨ ∃ state ∈ added, state.key = key := by
  induction added generalizing column with
  | nil => simp
  | cons state added ih =>
    rw [insertAll_cons, ih, contains_insert, or_assoc]
    simp

theorem mem_of_mem_insertAll (member : other ∈ (column.insertAll segment added).states) :
    other ∈ column.states ∨ other ∈ added := by
  induction added generalizing column with
  | nil => exact .inl member
  | cons state added ih =>
    rcases ih member with member | member
    · rw [states_insert] at member
      split at member
      · exact .inl member
      · rcases List.mem_append.mp member with member | member
        · exact .inl member
        · exact .inr (List.mem_singleton.mp member ▸ List.mem_cons_self)
    · exact .inr (List.mem_cons_of_mem _ member)

theorem Distinct.insertAll (distinct : column.Distinct) :
    (column.insertAll segment added).Distinct := by
  induction added generalizing column with
  | nil => exact distinct
  | cons state added ih => exact ih distinct.insert

/-! ### Marking names -/

theorem isMarked_mark {other : String} : (column.mark name).isMarked other ↔
    name = other ∨ column.isMarked other := by
  simp [isMarked, mark, Std.HashSet.contains_insert]

end Column

end JavaFrontend
