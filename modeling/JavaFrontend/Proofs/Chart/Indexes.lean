import JavaFrontend.Chart.Indexed
import JavaFrontend.Proofs.Chart.Arrivals
import Std.Data.HashMap.Lemmas

/-!
Columns that look their states up answer as the columns of the parser do. The numbers that a set
keeps for a part are those of the states with that part behind the dot (`IndexedSet.Indexes`), and
this is kept while states are inserted; a column of such sets follows a column of the parser step by
step (`IndexedColumn.Follows`). So both show what arrived at them (`column_of_arrivals`).
-/

namespace JavaFrontend

variable {α : Type} {grammar : Grammar}

/-! ### Sets -/

namespace IndexedSet

variable {set : IndexedSet α} {state : State α}

/-- The set into which the states were inserted, one after the other. -/
def ofStates (grammar : Grammar) (states : List (State α)) : IndexedSet α :=
  states.foldl (fun set state => set.insert state grammar) {}

/-- The numbers of the states with that behind the dot. -/
def numbers (set : IndexedSet α) : Option Part → Array Nat
  | none => set.completed
  | some (.rule name) => set.names.getD name #[]
  | some (.token kind) => set.kinds.getD kind #[]

/-- The numbers of the set are those of the states that they are kept for. -/
structure Indexes (set : IndexedSet α) (grammar : Grammar) : Prop where
  bound : ∀ next, ∀ number ∈ set.numbers next, number < set.size
  lookup : ∀ next, set.lookup (set.numbers next) =
    set.states.toList.filter (State.next? · grammar = next)
  names : ∀ name, name ∈ set.names ↔
    ∃ state ∈ set.states, state.next? grammar = some (.rule name)
  kinds : ∀ kind, kind ∈ set.kinds ↔
    ∃ state ∈ set.states, state.next? grammar = some (.token kind)

@[simp] theorem states_insert (set : IndexedSet α) (state : State α) (grammar : Grammar) :
    (set.insert state grammar).states = set.states.push state := rfl

theorem numbers_record (set : IndexedSet α) (number : Nat) (next other : Option Part) :
    (set.record number next).numbers other =
      if next = other then (set.numbers other).push number else set.numbers other := by
  match next, other with
  | none, none | none, some (.rule _) | none, some (.token _) | some (.rule _), none
  | some (.token _), none | some (.rule _), some (.token _) | some (.token _), some (.rule _) => rfl
  | some (.rule name), some (.rule other) =>
    by_cases same : name = other <;> simp [record, numbers, Std.HashMap.getD_insert, same]
  | some (.token kind), some (.token other) =>
    by_cases same : kind = other <;> simp [record, numbers, Std.HashMap.getD_insert, same]

theorem numbers_insert (set : IndexedSet α) (state : State α) (next : Option Part) :
    (set.insert state grammar).numbers next =
      if state.next? grammar = next then (set.numbers next).push set.size
      else set.numbers next := by
  rw [← numbers_record]
  rfl

theorem mem_names_insert {name : String} : name ∈ (set.insert state grammar).names ↔
    state.next? grammar = some (.rule name) ∨ name ∈ set.names := by
  have recorded (next : Option Part) : name ∈ (set.record set.size next).names ↔
      next = some (.rule name) ∨ name ∈ set.names := by
    match next with
    | none | some (.token _) => simp [record]
    | some (.rule _) => simp [record]
  exact recorded _

theorem mem_kinds_insert {kind : Kind} : kind ∈ (set.insert state grammar).kinds ↔
    state.next? grammar = some (.token kind) ∨ kind ∈ set.kinds := by
  have recorded (next : Option Part) : kind ∈ (set.record set.size next).kinds ↔
      next = some (.token kind) ∨ kind ∈ set.kinds := by
    match next with
    | none | some (.rule _) => simp [record]
    | some (.token _) => simp [record]
  exact recorded _

/-- Numbers of states that are there are looked up as before. -/
theorem lookup_insert {numbers : Array Nat} (bound : ∀ number ∈ numbers, number < set.size) :
    (set.insert state grammar).lookup numbers = set.lookup numbers := by
  refine List.filterMap_congr fun number member => ?_
  have small := bound number (Array.mem_toList_iff.mp member)
  rw [states_insert, Array.getElem?_push_lt small, Array.getElem?_eq_getElem small]

theorem lookup_push (set : IndexedSet α) (numbers : Array Nat) (number : Nat) :
    set.lookup (numbers.push number) = set.lookup numbers ++ set.states[number]?.toList := by
  cases found : set.states[number]? <;> simp [lookup, found]

theorem indexes_empty (grammar : Grammar) : ({} : IndexedSet α).Indexes grammar := by
  have none (next : Option Part) : ({} : IndexedSet α).numbers next = #[] := by
    match next with
    | none => rfl
    | some (.rule _) | some (.token _) => simp [numbers]
  constructor <;> simp [none, lookup]

theorem Indexes.insert (indexes : set.Indexes grammar) (state : State α) :
    (set.insert state grammar).Indexes grammar where
  bound next number member := by
    have grown : (set.insert state grammar).size = set.size + 1 := Array.size_push ..
    rw [grown]
    rw [numbers_insert] at member
    split at member
    · rcases Array.mem_push.mp member with old | rfl
      · exact (indexes.bound next number old).trans (Nat.lt_succ_self _)
      · exact Nat.lt_succ_self _
    · exact (indexes.bound next number member).trans (Nat.lt_succ_self _)
  lookup next := by
    rw [numbers_insert, states_insert, Array.toList_push, List.filter_append, ← indexes.lookup]
    split
    · next same =>
      rw [lookup_push, lookup_insert (indexes.bound next), states_insert]
      simp [size, same]
    · next apart =>
      rw [lookup_insert (indexes.bound next)]
      simp [apart]
  names name := by
    rw [mem_names_insert, indexes.names]
    simp [or_and_right, exists_or, or_comm]
  kinds kind := by
    rw [mem_kinds_insert, indexes.kinds]
    simp [or_and_right, exists_or, or_comm]

theorem indexes_ofStates (grammar : Grammar) (states : List (State α)) :
    (ofStates grammar states).Indexes grammar := by
  induction states using List.reverseRecOn with
  | nil => exact indexes_empty grammar
  | append_singleton states state ih =>
    rw [ofStates, List.foldl_append]
    exact ih.insert state

@[simp] theorem states_ofStates (grammar : Grammar) (states : List (State α)) :
    (ofStates grammar states).states.toList = states := by
  induction states using List.reverseRecOn with
  | nil => rfl
  | append_singleton states state ih =>
    rw [ofStates, List.foldl_append]
    exact (Array.toList_push ..).trans (congrArg (· ++ [state]) ih)

/-- The answers of a set are about its states. -/
theorem Indexes.divide (indexes : set.Indexes grammar) :
    set.answers.Divide grammar set.states.toList where
  completed := indexes.lookup none
  onName name := indexes.lookup (some (.rule name))
  onKind kind := indexes.lookup (some (.token kind))
  names name := by
    rw [show set.answers.waitingOnName name = _ from indexes.lookup (some (.rule name))]
    simp [answers, indexes.names, List.filter_eq_nil_iff]
  kinds kind := by
    rw [show set.answers.waitingOnKind kind = _ from indexes.lookup (some (.token kind))]
    simp [answers, Kind.mem_all, indexes.kinds, List.filter_eq_nil_iff]
  nodup_names := Std.HashMap.nodup_keys
  ordered_kinds := Kind.all_pairwise_rank.sublist List.filter_sublist

theorem eq_of_mem_nonempty? {other : IndexedSet α} (member : other ∈ set.nonempty?.toList) :
    other = set := by
  unfold nonempty? at member
  split at member
  · cases member
  · exact List.mem_singleton.mp member

theorem flatMap_nonempty? (set : IndexedSet α) :
    set.nonempty?.toList.flatMap (·.states.toList) = set.states.toList := by
  unfold nonempty?
  split
  · next none => simp [Array.isEmpty_iff.mp none]
  · simp

end IndexedSet

/-! ### Several sets -/

namespace Answers

variable {answers : Answers α} {σ : Type} {sets : List σ} {answersOf : σ → Answers α}
  {statesOf : σ → List (State α)}

/-- The answers are those of the parts, one after the other; what is awaited is what some part
awaits. -/
structure Unite (answers : Answers α) (parts : List (Answers α)) : Prop where
  completed : answers.completed = parts.flatMap (·.completed)
  onName : ∀ name, answers.waitingOnName name = parts.flatMap (·.waitingOnName name)
  onKind : ∀ kind, answers.waitingOnKind kind = parts.flatMap (·.waitingOnKind kind)
  names : ∀ name, name ∈ answers.awaitedNames ↔ ∃ part ∈ parts, name ∈ part.awaitedNames
  kinds : ∀ kind, kind ∈ answers.awaitedKinds ↔ ∃ part ∈ parts, kind ∈ part.awaitedKinds

/-- Merged answers are what up to three sets answer, one after the other. -/
theorem unite_merge (answersOf : σ → Answers α) (first : σ) (second third : Option σ) :
    (merge (answersOf first) (second.map answersOf) (third.map answersOf)).Unite
      ((first :: (second.toList ++ third.toList)).map answersOf) := by
  have parts : (first :: (second.toList ++ third.toList)).map answersOf =
      answersOf first :: ((second.map answersOf).toList ++ (third.map answersOf).toList) := by
    cases second <;> cases third <;> rfl
  rw [parts]
  exact {
    completed := rfl
    onName := fun _ => rfl
    onKind := fun _ => rfl
    names := fun name => by rw [merge, List.mem_eraseDups, List.mem_flatMap]
    kinds := fun kind => by simp only [merge, List.mem_filter, Kind.mem_all, true_and,
      List.contains_iff_mem, List.mem_flatMap] }

/-- What the parts answer about their states is, together, about all of these. -/
theorem Unite.divide (unite : answers.Unite (sets.map answersOf))
    (each : ∀ set ∈ sets, (answersOf set).Divide grammar (statesOf set))
    (nodup : answers.awaitedNames.Nodup)
    (ordered : answers.awaitedKinds.Pairwise fun a b => a.rank < b.rank) :
    answers.Divide grammar (sets.flatMap statesOf) where
  completed := by
    rw [unite.completed, List.flatMap_map, List.filter_flatMap]
    exact List.flatMap_congr fun set member => (each set member).completed
  onName name := by
    rw [unite.onName, List.flatMap_map, List.filter_flatMap]
    exact List.flatMap_congr fun set member => (each set member).onName name
  onKind kind := by
    rw [unite.onKind, List.flatMap_map, List.filter_flatMap]
    exact List.flatMap_congr fun set member => (each set member).onKind kind
  names name := by
    have waits : (∃ set ∈ sets, (answersOf set).waitingOnName name ≠ []) ↔
        (sets.map answersOf).flatMap (·.waitingOnName name) ≠ [] := by simp
    rw [unite.names, unite.onName, ← waits]
    simp only [List.mem_map, exists_exists_and_eq_and]
    exact exists_congr fun set => and_congr_right fun member => (each set member).names name
  kinds kind := by
    have waits : (∃ set ∈ sets, (answersOf set).waitingOnKind kind ≠ []) ↔
        (sets.map answersOf).flatMap (·.waitingOnKind kind) ≠ [] := by simp
    rw [unite.kinds, unite.onKind, ← waits]
    simp only [List.mem_map, exists_exists_and_eq_and]
    exact exists_congr fun set => and_congr_right fun member => (each set member).kinds kind
  nodup_names := nodup
  ordered_kinds := ordered

/-- What sets answer together is about the states of all of them. -/
theorem divide_merge {first : σ} {second third : Option σ}
    (each : ∀ set ∈ first :: (second.toList ++ third.toList),
      (answersOf set).Divide grammar (statesOf set)) :
    (merge (answersOf first) (second.map answersOf) (third.map answersOf)).Divide grammar
      ((first :: (second.toList ++ third.toList)).flatMap statesOf) :=
  (unite_merge answersOf first second third).divide each (nodup_eraseDups _)
    (Kind.all_pairwise_rank.sublist List.filter_sublist)

/-- Answers about all of the states are what the parts answer about theirs. -/
theorem Divide.unite (divide : answers.Divide grammar (sets.flatMap statesOf))
    (each : ∀ set ∈ sets, (answersOf set).Divide grammar (statesOf set)) :
    answers.Unite (sets.map answersOf) where
  completed := by
    rw [divide.completed, List.flatMap_map, List.filter_flatMap]
    exact List.flatMap_congr fun set member => (each set member).completed.symm
  onName name := by
    rw [divide.onName, List.flatMap_map, List.filter_flatMap]
    exact List.flatMap_congr fun set member => ((each set member).onName name).symm
  onKind kind := by
    rw [divide.onKind, List.flatMap_map, List.filter_flatMap]
    exact List.flatMap_congr fun set member => ((each set member).onKind kind).symm
  names name := by
    rw [divide.mem_names]
    constructor
    · rintro ⟨state, member, next⟩
      obtain ⟨set, known, inside⟩ := List.mem_flatMap.mp member
      exact ⟨_, List.mem_map_of_mem known,
        ((each set known).mem_names name).mpr ⟨state, inside, next⟩⟩
    · rintro ⟨_, part, awaited⟩
      obtain ⟨set, known, rfl⟩ := List.mem_map.mp part
      obtain ⟨state, inside, next⟩ := ((each set known).mem_names name).mp awaited
      exact ⟨state, List.mem_flatMap.mpr ⟨set, known, inside⟩, next⟩
  kinds kind := by
    rw [divide.mem_kinds]
    constructor
    · rintro ⟨state, member, next⟩
      obtain ⟨set, known, inside⟩ := List.mem_flatMap.mp member
      exact ⟨_, List.mem_map_of_mem known,
        ((each set known).mem_kinds kind).mpr ⟨state, inside, next⟩⟩
    · rintro ⟨_, part, awaited⟩
      obtain ⟨set, known, rfl⟩ := List.mem_map.mp part
      obtain ⟨state, inside, next⟩ := ((each set known).mem_kinds kind).mp awaited
      exact ⟨state, List.mem_flatMap.mpr ⟨set, known, inside⟩, next⟩

end Answers

/-- What sets answer together is what each of them answers. -/
theorem StateSet.unite_merge (sets : List (StateSet α)) (grammar : Grammar) :
    ((merge sets).answers grammar).Unite (sets.map (·.answers grammar)) :=
  Answers.Divide.unite (toList_merge sets ▸ divide_answers (merge sets) grammar)
    fun set _ => divide_answers set grammar

/-! ### Columns -/

namespace IndexedColumn

variable {indexed : IndexedColumn α} {column : Column α}

/-- The column at which the states have arrived, one after the other. -/
def ofArrivals (grammar : Grammar) (arrivals : List (Entry α)) : IndexedColumn α :=
  arrivals.foldl (fun column entry => (column.add entry.segment entry.state grammar).2) {}

/-- Both columns have the same states, in the same segments and in the same order. -/
structure Follows (indexed : IndexedColumn α) (column : Column α) (grammar : Grammar) : Prop where
  indexes : ∀ segment, (indexed.segment segment).Indexes grammar
  states : ∀ segment, (indexed.segment segment).states.toList =
    (column.segment segment).states.toList
  keys : ∀ key, indexed.keys.contains key = column.contains key
  size : indexed.size = column.size
  agenda_size : indexed.agenda.size = column.size
  agenda : ∀ (n : Nat) (entry : Entry α), column.entries[n]? = some entry → ∃ number,
    indexed.agenda[n]? = some (entry.segment, number) ∧
    (indexed.segment entry.segment).states[number]? = some entry.state

theorem segment_place (indexed : IndexedColumn α) (state : State α) (segment other : Segment) :
    (indexed.place state grammar segment).segment other =
      if segment = other then (indexed.segment other).insert state grammar
      else indexed.segment other := by
  cases segment <;> cases other <;> rfl

theorem follows_empty (grammar : Grammar) (index : Nat) :
    ({} : IndexedColumn α).Follows (.empty index) grammar where
  indexes segment := by cases segment <;> exact IndexedSet.indexes_empty grammar
  states segment := by cases segment <;> rfl
  keys key := by simp [Column.contains, Column.empty]
  size := rfl
  agenda_size := rfl
  agenda n entry found := by simp [Column.empty] at found

/-- Both columns add a state, or neither does. -/
theorem Follows.add (follows : indexed.Follows column grammar) (segment : Segment)
    (state : State α) :
    (indexed.add segment state grammar).1 = !column.contains state.key ∧
      (indexed.add segment state grammar).2.Follows (column.insert segment state) grammar := by
  unfold IndexedColumn.add
  rw [follows.keys]
  split
  · next known =>
    refine ⟨by simp [known], ?_⟩
    rwa [Column.insert, if_pos known]
  next fresh =>
  have entries : (column.insert segment state).entries = column.entries.push ⟨segment, state⟩ := by
    rw [Column.insert, if_neg fresh]
  have grown : (column.insert segment state).size = column.size + 1 := by
    rw [Column.size, entries, Array.size_push, Column.size]
  refine ⟨by simp [fresh], ⟨fun other => ?_, fun other => ?_, fun key => ?_, ?_, ?_, ?_⟩⟩
  · change ((indexed.place state grammar segment).segment other).Indexes grammar
    rw [segment_place]
    split
    · exact (follows.indexes other).insert state
    · exact follows.indexes other
  · change ((indexed.place state grammar segment).segment other).states.toList = _
    rw [segment_place, Column.toList_segment, entries, Array.toList_push, List.filter_append,
      List.map_append, ← Column.toList_segment, ← follows.states]
    split
    · next same => simp [same]
    · next apart => simp [apart]
  · change (indexed.keys.insert state.key).contains key = _
    rw [Bool.eq_iff_iff, Std.HashSet.contains_insert, Bool.or_eq_true, follows.keys,
      Column.contains_insert, beq_iff_eq, or_comm]
  · change (indexed.keys.insert state.key).size = _
    have absent : state.key ∉ indexed.keys := by
      rwa [← Std.HashSet.contains_iff_mem, follows.keys]
    rw [grown, Std.HashSet.size_insert, if_neg absent]
    exact congrArg (· + 1) follows.size
  · change (indexed.agenda.push _).size = _
    rw [grown, Array.size_push, follows.agenda_size]
  · intro n entry found
    change ∃ number, (indexed.agenda.push _)[n]? = some (entry.segment, number) ∧
      ((indexed.place state grammar segment).segment entry.segment).states[number]? =
        some entry.state
    rw [entries, Array.getElem?_push] at found
    split at found
    · next last =>
      cases found
      refine ⟨(indexed.segment segment).size, ?_, ?_⟩
      · rw [last, ← Column.size, ← follows.agenda_size, Array.getElem?_push_size]
      · rw [segment_place, if_pos rfl, IndexedSet.states_insert]
        exact Array.getElem?_push_size
    · obtain ⟨number, listed, there⟩ := follows.agenda n entry found
      refine ⟨number, ?_, ?_⟩
      · rw [Array.getElem?_push_lt (Array.getElem?_eq_some_iff.mp listed).1,
          ← Array.getElem?_eq_getElem, listed]
      · rw [segment_place]
        split
        · have small := (Array.getElem?_eq_some_iff.mp there).1
          rw [IndexedSet.states_insert, Array.getElem?_push_lt small,
            ← Array.getElem?_eq_getElem, there]
        · exact there

theorem Follows.get? (follows : indexed.Follows column grammar) (n : Nat) :
    indexed.get? n = column.get? n := by
  rw [IndexedColumn.get?, Column.get?]
  cases found : column.entries[n]? with
  | none =>
    have beyond : indexed.agenda.size ≤ n :=
      follows.agenda_size.trans_le (Array.getElem?_eq_none_iff.mp found)
    rw [Array.getElem?_eq_none beyond]
    rfl
  | some entry =>
    obtain ⟨number, listed, there⟩ := follows.agenda n entry found
    rw [listed]
    exact there

/-- The view is about the states of the column. -/
theorem Follows.divide_view (follows : indexed.Follows column grammar) :
    indexed.view.Divide grammar column.view.states.toList := by
  have known : ∀ set ∈ indexed.scanned ::
      (indexed.completed.nonempty?.toList ++ indexed.predicted.nonempty?.toList),
      set.Indexes grammar := by
    intro set member
    rcases List.mem_cons.mp member with rfl | member
    · exact follows.indexes .scanned
    · rcases List.mem_append.mp member with member | member
      · exact IndexedSet.eq_of_mem_nonempty? member ▸ follows.indexes .completed
      · exact IndexedSet.eq_of_mem_nonempty? member ▸ follows.indexes .predicted
  have divided := Answers.divide_merge fun set member => (known set member).divide
  rw [List.flatMap_cons, List.flatMap_append, IndexedSet.flatMap_nonempty?,
    IndexedSet.flatMap_nonempty?] at divided
  rw [Column.view, StateSet.toList_merge]
  simp only [List.flatMap_cons, List.flatMap_nil, List.append_nil, ← follows.states]
  exact divided

theorem follows_ofArrivals (grammar : Grammar) (index : Nat) (arrivals : List (Entry α)) :
    (ofArrivals grammar arrivals).Follows (Column.ofArrivals index arrivals) grammar := by
  induction arrivals using List.reverseRecOn with
  | nil => exact follows_empty grammar index
  | append_singleton arrivals entry ih =>
    rw [Column.ofArrivals_concat, ofArrivals, List.foldl_append]
    exact (ih.add entry.segment entry.state).2

/-- A column shows what arrived at it. A further state is added if none of its key arrived. The
states stand in the order of arrival, and stay where they are whatever arrives later; there are as
many as in the three segments together. The view answers about all of them, segment by segment: each
is in one of the answers, once. The columns of the parser have the same states and give the same
answers. What up to three sets answer together, in either form, is what they answer one after the
other. -/
theorem column_of_arrivals (grammar : Grammar) (index : Nat) (arrivals : List (Entry α)) :
    let indexed := ofArrivals grammar arrivals
    let column := Column.ofArrivals index arrivals
    let kept := Column.firsts arrivals
    let view := indexed.view
    (∀ entry : Entry α, (indexed.add entry.segment entry.state grammar).1 ↔
      ∀ earlier ∈ arrivals, earlier.state.key ≠ entry.state.key) ∧
    (∀ n, indexed.get? n = kept[n]?.map (·.state)) ∧
    (∀ later n state, indexed.get? n = some state →
      (ofArrivals grammar (arrivals ++ later)).get? n = some state) ∧
    indexed.size = kept.length ∧
    indexed.size = indexed.scanned.size + indexed.completed.size + indexed.predicted.size ∧
    (Column.shown kept).Perm (kept.map (·.state)) ∧
    ((Column.shown kept).map State.key).Nodup ∧
    view.Divide grammar (Column.shown kept) ∧
    (Column.shown kept).Perm (view.completed ++ view.awaitedNames.flatMap view.waitingOnName ++
      view.awaitedKinds.flatMap view.waitingOnKind) ∧
    (∀ entry : Entry α, column.contains entry.state.key =
      !(indexed.add entry.segment entry.state grammar).1) ∧
    (∀ n, column.get? n = indexed.get? n) ∧
    (∀ segment, (column.segment segment).states = (indexed.segment segment).states) ∧
    (column.view.answers grammar).Divide grammar (Column.shown kept) ∧
    (∀ (first : List (State α)) (second third : Option (List (State α))),
      let lists := first :: (second.toList ++ third.toList)
      let answersOf := fun states => (IndexedSet.ofStates grammar states).answers
      let merged := Answers.merge (answersOf first) (second.map answersOf) (third.map answersOf)
      merged.Unite (lists.map answersOf) ∧ merged.Divide grammar lists.flatten) ∧
    ∀ sets : List (StateSet α),
      ((StateSet.merge sets).answers grammar).Unite (sets.map (·.answers grammar)) := by
  intro indexed column kept view
  have follows : indexed.Follows column grammar := follows_ofArrivals grammar index arrivals
  have shown : column.view.states.toList = Column.shown kept := by
    rw [Column.toList_view, Column.entries_ofArrivals]
  have divide : view.Divide grammar (Column.shown kept) := shown ▸ follows.divide_view
  have keys : ((Column.shown kept).map State.key).Nodup := by
    refine ((Column.perm_shown kept).map State.key).nodup_iff.mpr ?_
    exact Column.states_ofArrivals index arrivals ▸ Column.distinct_ofArrivals index arrivals
  have added (entry : Entry α) : (indexed.add entry.segment entry.state grammar).1 =
      !column.contains entry.state.key := (follows.add entry.segment entry.state).1
  have segments (segment : Segment) :
      (column.segment segment).states = (indexed.segment segment).states :=
    Array.toList_inj.mp (follows.states segment).symm
  refine ⟨fun entry => ?_, fun n => ?_, fun later n state found => ?_, ?_, ?_,
    Column.perm_shown kept, keys, divide, divide.perm, fun entry => ?_,
    fun n => (follows.get? n).symm, segments, ?_, fun first second third => ?_,
    fun sets => StateSet.unite_merge sets grammar⟩
  · rw [added, Bool.not_eq_true', ← Bool.not_eq_true, Column.contains_ofArrivals]
    simp
  · rw [follows.get?, Column.get?_eq, Column.states_ofArrivals, List.getElem?_map]
  · have further := follows_ofArrivals grammar index (arrivals ++ later)
    rw [follows.get?, Column.get?_eq] at found
    rw [further.get?, Column.get?_eq]
    obtain ⟨more, same⟩ := Column.prefix_ofArrivals index arrivals later
    rw [← same, List.getElem?_append_left (List.getElem?_eq_some_iff.mp found).1, found]
  · rw [follows.size, Column.size, ← Array.length_toList, Column.entries_ofArrivals]
  · rw [follows.size, Column.size_eq_segments]
    simp only [StateSet.size, segments]
    rfl
  · rw [added, Bool.not_not]
  · exact shown ▸ StateSet.divide_answers column.view grammar
  · intro lists answersOf merged
    have divided (states : List (State α)) : (answersOf states).Divide grammar states := by
      simpa using (IndexedSet.indexes_ofStates grammar states).divide
    refine ⟨Answers.unite_merge answersOf first second third, ?_⟩
    rw [← List.flatMap_id]
    exact Answers.divide_merge fun states _ => divided states

end IndexedColumn

end JavaFrontend
