import JavaFrontend.Chart.Indexed
import JavaFrontend.Proofs.Chart.Answers

/-!
What a column shows of the states that arrived at it. It keeps, in the order of their arrival, those
before which none of the same key had arrived; what it is asked is asked about these, segment by
segment, and the answers divide them by the part behind the dot.
-/

namespace JavaFrontend

variable {α β κ : Type}

/-! ### Lists divided by a key -/

theorem nodup_eraseDups [BEq κ] [LawfulBEq κ] : (keys : List κ) → keys.eraseDups.Nodup
  | [] => List.nodup_nil
  | key :: keys => by
    rw [List.eraseDups_cons, List.nodup_cons]
    exact ⟨by simp, nodup_eraseDups _⟩
termination_by keys => keys.length
decreasing_by exact Nat.lt_succ_of_le (List.length_filter_le _ _)

/-- A list is what it has for each of the keys, if these are all the keys there are. -/
theorem perm_flatMap_filter [DecidableEq κ] (keyOf : β → κ) {keys : List κ} (distinct : keys.Nodup)
    {items : List β} (known : ∀ item ∈ items, keyOf item ∈ keys) :
    items.Perm (keys.flatMap fun key => items.filter (keyOf · = key)) := by
  induction keys generalizing items with
  | nil =>
    obtain rfl := List.eq_nil_iff_forall_not_mem.mpr fun item member =>
      List.not_mem_nil (known item member)
    exact .refl _
  | cons key keys ih =>
    obtain ⟨fresh, distinct⟩ := List.nodup_cons.mp distinct
    have left : ∀ item ∈ items.filter (fun item => !(keyOf item = key)), keyOf item ∈ keys := by
      intro item member
      obtain ⟨member, other⟩ := List.mem_filter.mp member
      exact (List.mem_cons.mp (known item member)).resolve_left (by simpa using other)
    have others := ih distinct left
    have same : (keys.flatMap fun other =>
        (items.filter fun item => !(keyOf item = key)).filter (keyOf · = other)) =
        keys.flatMap fun other => items.filter (keyOf · = other) := by
      refine List.flatMap_congr fun other member => ?_
      rw [List.filter_filter]
      refine List.filter_congr fun item _ => ?_
      have apart : other ≠ key := fun same => fresh (same ▸ member)
      by_cases here : keyOf item = other <;> simp [here, apart]
    rw [same] at others
    rw [List.flatMap_cons]
    exact (List.filter_append_perm (fun item => decide (keyOf item = key)) items).symm.trans
      (others.append_left _)

/-! ### Answers -/

/-- The answers are about the states: each is among the completed ones, or among those that wait on
the part behind its dot, in the order in which the states are given. -/
structure Answers.Divide (answers : Answers α) (grammar : Grammar) (states : List (State α)) :
    Prop where
  completed : answers.completed = states.filter (State.next? · grammar = none)
  onName : ∀ name, answers.waitingOnName name =
    states.filter (State.next? · grammar = some (.rule name))
  onKind : ∀ kind, answers.waitingOnKind kind =
    states.filter (State.next? · grammar = some (.token kind))
  names : ∀ name, name ∈ answers.awaitedNames ↔ answers.waitingOnName name ≠ []
  kinds : ∀ kind, kind ∈ answers.awaitedKinds ↔ answers.waitingOnKind kind ≠ []
  nodup_names : answers.awaitedNames.Nodup
  ordered_kinds : answers.awaitedKinds.Pairwise fun a b => a.rank < b.rank

namespace Answers.Divide

variable {answers : Answers α} {grammar : Grammar} {states : List (State α)}

theorem mem_names (divide : answers.Divide grammar states) (name : String) :
    name ∈ answers.awaitedNames ↔ ∃ state ∈ states, state.next? grammar = some (.rule name) := by
  simp [divide.names, divide.onName, List.filter_eq_nil_iff]

theorem mem_kinds (divide : answers.Divide grammar states) (kind : Kind) :
    kind ∈ answers.awaitedKinds ↔ ∃ state ∈ states, state.next? grammar = some (.token kind) := by
  simp [divide.kinds, divide.onKind, List.filter_eq_nil_iff]

/-- Each state is in one of the answers, once. -/
theorem perm (divide : answers.Divide grammar states) :
    states.Perm (answers.completed ++ answers.awaitedNames.flatMap answers.waitingOnName ++
      answers.awaitedKinds.flatMap answers.waitingOnKind) := by
  have nodup_kinds : answers.awaitedKinds.Nodup :=
    divide.ordered_kinds.imp fun less same => by simp [same] at less
  let keys : List (Option Part) := none ::
    (answers.awaitedNames.map (some <| .rule ·) ++ answers.awaitedKinds.map (some <| .token ·))
  have distinct : keys.Nodup := by
    refine List.nodup_cons.mpr ⟨by simp, List.nodup_append.mpr ⟨?_, ?_, ?_⟩⟩
    · exact divide.nodup_names.map fun _ _ same => by simpa using same
    · exact nodup_kinds.map fun _ _ same => by simpa using same
    · simp
  have known : ∀ state ∈ states, state.next? grammar ∈ keys := by
    intro state member
    cases next : state.next? grammar with
    | none => exact List.mem_cons_self
    | some part =>
      refine List.mem_cons_of_mem _ (List.mem_append.mpr ?_)
      cases part with
      | rule name =>
        exact .inl (List.mem_map_of_mem ((divide.mem_names name).mpr ⟨state, member, next⟩))
      | token kind =>
        exact .inr (List.mem_map_of_mem ((divide.mem_kinds kind).mpr ⟨state, member, next⟩))
  have divided := perm_flatMap_filter (State.next? · grammar) distinct known
  simpa [keys, ← divide.completed, ← divide.onName, ← divide.onKind, List.flatMap_append,
    List.flatMap_map] using divided

end Answers.Divide

/-! ### Sets of states -/

namespace StateSet

variable {set : StateSet α} {grammar : Grammar} {name : String}

theorem toList_merge (sets : List (StateSet α)) :
    (merge sets).states.toList = sets.flatMap (·.states.toList) := by
  have all (states : Array (State α)) :
      (sets.foldl (fun states set => states ++ set.states) states).toList =
        states.toList ++ sets.flatMap (·.states.toList) := by
    induction sets generalizing states with
    | nil => simp
    | cons set sets ih =>
      rw [List.foldl_cons, ih, Array.toList_append, List.flatMap_cons, List.append_assoc]
  exact all #[]

theorem mem_awaitedNames : name ∈ set.awaitedNames grammar ↔
    ∃ state ∈ set.states, state.next? grammar = some (.rule name) := by
  have isName (part : Part) : part.ruleName? = some name ↔ part = .rule name := by
    cases part <;> simp [Part.ruleName?]
  simp only [awaitedNames, awaited, List.mem_eraseDups, List.mem_filterMap, Array.mem_toList_iff,
    isName]
  constructor
  · rintro ⟨part, ⟨state, member, next⟩, rfl⟩
    exact ⟨state, member, next⟩
  · rintro ⟨state, member, next⟩
    exact ⟨_, ⟨state, member, next⟩, rfl⟩

/-- The answers of a set are about its states. -/
theorem divide_answers (set : StateSet α) (grammar : Grammar) :
    (set.answers grammar).Divide grammar set.states.toList where
  completed := List.filter_congr fun state _ => by
    cases next : state.next? grammar <;> simp [State.isCompleted, next]
  onName name := List.filter_congr fun state _ => by simp [beq_eq_decide]
  onKind kind := List.filter_congr fun state _ => by simp [beq_eq_decide]
  names name := by simp [answers, mem_awaitedNames, waitingOn, List.filter_eq_nil_iff]
  kinds kind := by simp [answers, mem_awaitedKinds, waitingOn, List.filter_eq_nil_iff]
  nodup_names := nodup_eraseDups _
  ordered_kinds := Kind.all_pairwise_rank.sublist List.filter_sublist

end StateSet

/-! ### Arrivals -/

namespace Column

variable {index : Nat} {arrivals : List (Entry α)} {entry : Entry α} {key : StateKey}

theorem mem_keys_empty (key : StateKey) : key ∈ (∅ : Std.HashSet StateKey) ↔
    ∃ entry ∈ (#[] : Array (Entry α)), entry.state.key = key := by
  simp

/-- The column at which nothing has arrived. -/
def empty (index : Nat) : Column α where
  index
  mem_keys := mem_keys_empty

/-- The column at which the states have arrived, one after the other. -/
def ofArrivals (index : Nat) (arrivals : List (Entry α)) : Column α :=
  arrivals.foldl (fun column entry => column.insert entry.segment entry.state) (empty index)

/-- None of the first `n` arrivals has the key. -/
def isNew (arrivals : List (Entry α)) (n : Nat) (key : StateKey) : Bool :=
  (arrivals.take n).all (·.state.key ≠ key)

/-- The arrivals before which there is none of the same key. -/
def firsts (arrivals : List (Entry α)) : List (Entry α) :=
  (arrivals.zipIdx.filter fun numbered => isNew arrivals numbered.2 numbered.1.state.key).map (·.1)

/-- The states of the entries as a column shows them: first those that were scanned, then those that
were completed and at last those that were predicted, each in the order of the entries. -/
def shown (entries : List (Entry α)) : List (State α) :=
  [Segment.scanned, .completed, .predicted].flatMap fun segment =>
    (entries.filter (·.segment = segment)).map (·.state)

theorem ofArrivals_concat (index : Nat) (arrivals : List (Entry α)) (entry : Entry α) :
    ofArrivals index (arrivals ++ [entry]) =
      (ofArrivals index arrivals).insert entry.segment entry.state := by
  rw [ofArrivals, List.foldl_append]
  rfl

/-- An arrival is kept if no earlier one has its key. -/
theorem firsts_concat (arrivals : List (Entry α)) (entry : Entry α) :
    firsts (arrivals ++ [entry]) =
      if ∀ earlier ∈ arrivals, earlier.state.key ≠ entry.state.key then firsts arrivals ++ [entry]
      else firsts arrivals := by
  have before : (arrivals.zipIdx.filter fun numbered =>
      isNew (arrivals ++ [entry]) numbered.2 numbered.1.state.key) =
        arrivals.zipIdx.filter fun numbered =>
          isNew arrivals numbered.2 numbered.1.state.key := by
    refine List.filter_congr fun numbered member => ?_
    obtain ⟨-, bound, -⟩ := List.mem_zipIdx member
    rw [isNew, isNew, List.take_append_of_le_length (by omega)]
  have last : isNew (arrivals ++ [entry]) (0 + arrivals.length) entry.state.key ↔
      ∀ earlier ∈ arrivals, earlier.state.key ≠ entry.state.key := by
    simp [isNew]
  rw [firsts, List.zipIdx_append, List.filter_append, before, List.map_append,
    List.zipIdx_singleton]
  split
  · next fresh =>
    rw [List.filter_cons, if_pos (last.mpr fresh)]
    rfl
  · next known =>
    rw [List.filter_cons, if_neg (mt last.mp known)]
    simp [firsts]

theorem contains_ofArrivals : (ofArrivals index arrivals).contains key ↔
    ∃ entry ∈ arrivals, entry.state.key = key := by
  induction arrivals using List.reverseRecOn with
  | nil => simp [ofArrivals, empty, contains_iff]
  | append_singleton arrivals entry ih =>
    rw [ofArrivals_concat, contains_insert, ih]
    simp [or_and_right, exists_or]

theorem entries_insert (column : Column α) (segment : Segment) (state : State α) :
    (column.insert segment state).entries.toList =
      if column.contains state.key then column.entries.toList
      else column.entries.toList ++ [⟨segment, state⟩] := by
  unfold insert
  split <;> simp

/-- What the column keeps are the first arrivals of their keys. -/
theorem entries_ofArrivals (index : Nat) (arrivals : List (Entry α)) :
    (ofArrivals index arrivals).entries.toList = firsts arrivals := by
  induction arrivals using List.reverseRecOn with
  | nil => rfl
  | append_singleton arrivals entry ih =>
    rw [ofArrivals_concat, entries_insert, ih, firsts_concat]
    by_cases known : ∃ earlier ∈ arrivals, earlier.state.key = entry.state.key
    · rw [if_pos (contains_ofArrivals.mpr known), if_neg (by simpa using known)]
    · rw [if_neg (fun present => known (contains_ofArrivals.mp present)),
        if_pos (by simpa using known)]

theorem states_ofArrivals (index : Nat) (arrivals : List (Entry α)) :
    (ofArrivals index arrivals).states = (firsts arrivals).map (·.state) := by
  rw [states, entries_ofArrivals]

theorem distinct_ofArrivals (index : Nat) (arrivals : List (Entry α)) :
    (ofArrivals index arrivals).Distinct := by
  induction arrivals using List.reverseRecOn with
  | nil => exact List.nodup_nil
  | append_singleton arrivals entry ih =>
    rw [ofArrivals_concat]
    exact ih.insert

/-- What arrives later is put behind what is there. -/
theorem prefix_ofArrivals (index : Nat) (arrivals later : List (Entry α)) :
    (ofArrivals index arrivals).states <+: (ofArrivals index (arrivals ++ later)).states := by
  induction later using List.reverseRecOn with
  | nil => rw [List.append_nil]
  | append_singleton later entry ih =>
    rw [← List.append_assoc, ofArrivals_concat]
    exact ih.trans (prefix_insert _ _ _)

/-! ### What a column shows -/

theorem toList_segment (column : Column α) (segment : Segment) :
    (column.segment segment).states.toList =
      (column.entries.toList.filter (·.segment = segment)).map (·.state) := by
  rw [Column.segment, Array.toList_filterMap, ← List.filterMap_eq_map, List.filterMap_filter]
  refine List.filterMap_congr fun entry _ => ?_
  by_cases same : entry.segment = segment <;> simp [same]

theorem toList_view (column : Column α) :
    column.view.states.toList = shown column.entries.toList := by
  rw [view, StateSet.toList_merge, shown]
  simp only [List.flatMap_cons, List.flatMap_nil, toList_segment]

/-- The states that are shown are those of the entries. -/
theorem perm_shown (entries : List (Entry α)) :
    (shown entries).Perm (entries.map (·.state)) := by
  have distinct : [Segment.scanned, .completed, .predicted].Nodup := by decide
  have known : ∀ entry ∈ entries, entry.segment ∈ [Segment.scanned, .completed, .predicted] :=
    fun entry _ => by cases entry.segment <;> simp
  have divided := (perm_flatMap_filter Entry.segment distinct known).map Entry.state
  rw [List.map_flatMap] at divided
  exact divided.symm

theorem size_eq_segments (column : Column α) : column.size = (column.segment .scanned).size +
    (column.segment .completed).size + (column.segment .predicted).size := by
  have lengths := (perm_shown column.entries.toList).length_eq
  simp only [shown, List.flatMap_cons, List.flatMap_nil, ← toList_segment, List.length_append,
    List.length_nil, List.length_map, Array.length_toList] at lengths
  rw [size, StateSet.size, StateSet.size, StateSet.size, ← lengths]
  omega

end Column

end JavaFrontend
