import JavaFrontend.Parse.Pass
import JavaFrontend.Proofs.Place.Unplaced

/-!
Charts that are blind to places. If what tokens and rules are made into does not depend on places,
then neither does the growth of a chart: reading a token without its place, the chart without places
becomes what the chart becomes, without places.
-/

namespace JavaFrontend

variable {α : Type} [Placed α]

/-! ### States and columns -/

instance : Placed (State α) := ⟨fun state => { state with matched := unplaced state.matched }⟩

namespace State

@[simp] theorem key_unplaced (state : State α) : (unplaced state).key = state.key :=
  congrArg (StateKey.mk state.rule · state.origin) (List.length_map _)

@[simp] theorem next?_unplaced (state : State α) (grammar : Grammar) :
    (unplaced state).next? grammar = state.next? grammar :=
  congrArg (grammar.partAt? state.rule) (List.length_map _)

@[simp] theorem isCompleted_unplaced (state : State α) (grammar : Grammar) :
    (unplaced state).isCompleted grammar = state.isCompleted grammar := by
  rw [isCompleted, next?_unplaced, isCompleted]

theorem advance_unplaced (state : State α) (found : α) :
    (unplaced state).advance (unplaced found) = unplaced (state.advance found) :=
  congrArg (State.mk state.rule state.origin) (unplaced_append state.matched [found]).symm

end State

instance : Placed (Entry α) := ⟨fun entry => { entry with state := unplaced entry.state }⟩

instance : Placed (StateSet α) := ⟨fun set => ⟨set.states.map unplaced⟩⟩

namespace StateSet

variable (set : StateSet α) (grammar : Grammar)

theorem waitingOn_unplaced (part : Part) :
    (unplaced set).waitingOn grammar part = unplaced (set.waitingOn grammar part) := by
  change (set.states.map unplaced).toList.filter _ = (set.states.toList.filter _).map unplaced
  rw [Array.toList_map, List.filter_map]
  refine congrArg _ (List.filter_congr fun state _ => ?_)
  rw [Function.comp_apply, State.next?_unplaced]

theorem awaitedKinds_unplaced : (unplaced set).awaitedKinds grammar = set.awaitedKinds grammar := by
  have same : (unplaced set).awaited grammar = set.awaited grammar := by
    change (set.states.map unplaced).toList.filterMap _ = set.states.toList.filterMap _
    rw [Array.toList_map, List.filterMap_map]
    exact congrArg (set.states.toList.filterMap ·)
      (funext fun state => state.next?_unplaced grammar)
  rw [awaitedKinds, awaitedKinds, same]

end StateSet

namespace Column

instance : Placed (Column α) := ⟨fun column =>
  { column with
    entries := column.entries.map unplaced
    mem_keys := fun key => by
      rw [column.mem_keys]
      constructor
      · rintro ⟨entry, member, same⟩
        exact ⟨unplaced entry, Array.mem_map_of_mem member, entry.state.key_unplaced.trans same⟩
      · rintro ⟨_, among, same⟩
        obtain ⟨entry, member, rfl⟩ := Array.mem_map.mp among
        exact ⟨entry, member, entry.state.key_unplaced.symm.trans same⟩ }⟩

/-- Columns are the same if their states, names and keys are. -/
private theorem same_column {β : Type} {first second : Column β}
    (index : first.index = second.index) (entries : first.entries = second.entries)
    (marked : first.marked = second.marked) (keys : first.keys = second.keys) :
    first = second := by
  cases first
  cases second
  cases index
  cases entries
  cases marked
  cases keys
  rfl

variable (column : Column α)

theorem isEmpty_unplaced : (unplaced column).isEmpty = column.isEmpty :=
  congrArg (fun size => decide (size = 0)) Array.size_map

theorem get?_unplaced (n : Nat) : (unplaced column).get? n = unplaced (column.get? n) := by
  change (column.entries.map unplaced)[n]?.map _ = (column.entries[n]?.map _).map unplaced
  rw [Array.getElem?_map]
  cases column.entries[n]? <;> rfl

theorem unplaced_fresh (index : Nat) : unplaced ({ index } : Column α) = { index } :=
  same_column rfl Array.map_empty rfl rfl

theorem insert_unplaced (segment : Segment) (state : State α) :
    (unplaced column).insert segment (unplaced state) = unplaced (column.insert segment state) := by
  have known : (unplaced column).contains (unplaced state).key = column.contains state.key := by
    rw [State.key_unplaced]
    rfl
  unfold insert
  rw [known]
  split
  · rfl
  · have pushed : (column.entries.push ⟨segment, state⟩).map unplaced =
        (column.entries.map unplaced).push ⟨segment, unplaced state⟩ := Array.map_push
    exact same_column rfl pushed.symm rfl (congrArg column.keys.insert state.key_unplaced)

theorem insertAll_unplaced (segment : Segment) (states : List (State α)) :
    (unplaced column).insertAll segment (unplaced states) =
      unplaced (column.insertAll segment states) := by
  induction states generalizing column with
  | nil => rfl
  | cons state states ih =>
    change ((unplaced column).insert segment (unplaced state)).insertAll segment
      (unplaced states) = _
    rw [insert_unplaced, ih]
    rfl

theorem segment_unplaced (segment : Segment) :
    (unplaced column).segment segment = unplaced (column.segment segment) := by
  refine congrArg StateSet.mk ?_
  change (column.entries.map unplaced).filterMap _ = (column.entries.filterMap _).map unplaced
  rw [Array.filterMap_map, Array.map_filterMap]
  refine congrArg (column.entries.filterMap ·) (funext fun entry => ?_)
  change (if entry.segment = segment then some (unplaced entry.state) else none) = _
  split <;> rfl

theorem view_unplaced : (unplaced column).view = unplaced column.view := by
  have states (segment : Segment) : ((unplaced column).segment segment).states =
      (column.segment segment).states.map unplaced :=
    congrArg StateSet.states (column.segment_unplaced segment)
  refine congrArg StateSet.mk ?_
  change _ = Array.map _ (#[] ++ (column.segment .scanned).states ++
    (column.segment .completed).states ++ (column.segment .predicted).states)
  simp only [List.foldl_cons, List.foldl_nil, states, Array.map_append, Array.map_empty]

end Column

/-! ### The growth of a chart -/

/-- What is made of tokens and rules does not depend on places. -/
structure Interpretation.Blind (interpretation : Interpretation α) : Prop where
  leaf : ∀ token, interpretation.leaf (unplaced token) = unplaced (interpretation.leaf token)
  reduce : ∀ id operands,
    interpretation.reduce id (unplaced operands) = unplaced (interpretation.reduce id operands)

namespace ChartParser

variable {parser : ChartParser α}

theorem predict_unplaced (name : String) (column : Column α) :
    parser.predict name (unplaced column) = unplaced (parser.predict name column) := by
  have marked : (unplaced column).isMarked name = column.isMarked name := rfl
  have rules : unplaced (parser.predictions? name column.index) =
      parser.predictions? name column.index := List.map_map
  unfold predict
  rw [marked]
  split
  · rfl
  · rw [← Column.insertAll_unplaced, rules]
    rfl

theorem expected_unplaced (column : Column α) :
    parser.expected (unplaced column) = parser.expected column := by
  rw [expected, Column.view_unplaced, StateSet.awaitedKinds_unplaced, expected]

theorem map_advance_unplaced (states : List (State α)) (found : α) :
    (unplaced states).map (·.advance (unplaced found)) =
      unplaced (states.map (·.advance found)) := by
  refine List.map_map.trans (Eq.trans ?_ List.map_map.symm)
  exact congrArg (states.map ·) (funext fun state => state.advance_unplaced found)

theorem accepted?_unplaced (column : Column α) :
    parser.accepted? (unplaced column) = unplaced (parser.accepted? column) := by
  unfold accepted?
  change ((column.entries.map unplaced).find? _).map _ = _
  rw [Array.find?_map]
  have same : ((fun entry : Entry α => entry.state.isCompleted parser.grammar &&
        entry.state.origin == 0 &&
        (parser.grammar.rule? entry.state.rule).any (·.name == parser.grammar.start)) ∘ unplaced) =
      fun entry => entry.state.isCompleted parser.grammar && entry.state.origin == 0 &&
        (parser.grammar.rule? entry.state.rule).any (·.name == parser.grammar.start) :=
    funext fun entry => by
      simp only [Function.comp_apply]
      exact congrArg (· && _ && _) (entry.state.isCompleted_unplaced parser.grammar)
  rw [same]
  cases column.entries.find? _ <;> rfl

section Blind

variable (blind : parser.interpretation.Blind)
include blind

theorem complete_unplaced (earlier : Array (Column α)) (state : State α) (column : Column α) :
    parser.complete (earlier.map unplaced) (unplaced state) (unplaced column) =
      unplaced (parser.complete earlier state column) := by
  have reduced : parser.interpretation.reduce (unplaced state).rule (unplaced state).matched =
      unplaced (parser.interpretation.reduce state.rule state.matched) :=
    blind.reduce state.rule state.matched
  have origin : (earlier.map unplaced)[(unplaced state).origin]? =
      unplaced earlier[state.origin]? := Array.getElem?_map ..
  unfold complete
  rw [reduced, origin]
  cases parser.interpretation.reduce state.rule state.matched with
  | error reason => rfl
  | ok found =>
    cases parser.grammar.rule? state.rule with
    | none => rfl
    | some rule =>
      cases earlier[state.origin]? with
      | none => rfl
      | some origin =>
        refine congrArg Except.ok ?_
        rw [Column.view_unplaced, StateSet.waitingOn_unplaced, map_advance_unplaced,
          Column.insertAll_unplaced]

theorem process_unplaced (earlier : Array (Column α)) (state : State α) (column : Column α) :
    parser.process (earlier.map unplaced) (unplaced state) (unplaced column) =
      unplaced (parser.process earlier state column) := by
  unfold process
  rw [State.next?_unplaced]
  split
  · exact congrArg Except.ok (predict_unplaced _ _)
  · rfl
  · exact complete_unplaced blind earlier state column

theorem closeFrom_unplaced (earlier : Array (Column α)) (fuel n : Nat) (column : Column α) :
    parser.closeFrom (earlier.map unplaced) fuel n (unplaced column) =
      unplaced (parser.closeFrom earlier fuel n column) := by
  induction fuel generalizing n column with
  | zero => rfl
  | succ fuel ih =>
    rw [closeFrom, closeFrom, Column.get?_unplaced]
    cases column.get? n with
    | none => rfl
    | some state =>
      dsimp only [unplaced_some]
      rw [process_unplaced blind]
      cases parser.process earlier state column with
      | error reason => rfl
      | ok column => exact ih (n + 1) column

theorem close_unplaced (earlier : Array (Column α)) (column : Column α) :
    parser.close (earlier.map unplaced) (unplaced column) =
      unplaced (parser.close earlier column) :=
  closeFrom_unplaced blind earlier _ 0 column

theorem scan_unplaced (column : Column α) (token : Token) :
    parser.scan (unplaced column) (unplaced token) = unplaced (parser.scan column token) := by
  unfold scan
  rw [Column.view_unplaced, blind.leaf]
  change Column.insertAll _ _
    (((unplaced column.view).waitingOn parser.grammar (.token token.kind)).map _) = _
  rw [StateSet.waitingOn_unplaced, map_advance_unplaced, ← Column.insertAll_unplaced,
    Column.unplaced_fresh]
  rfl

end Blind

end ChartParser

/-! ### Reading tokens -/

instance : Placed (Chart α) := ⟨fun chart => ⟨chart.earlier.map unplaced, unplaced chart.last⟩⟩

namespace Chart

theorem columns_unplaced (chart : Chart α) :
    (unplaced chart).columns = chart.columns.map unplaced := Array.map_push.symm

end Chart

namespace Parser

variable {parser : Parser α}

theorem unexpected_unplaced (chart : Chart α) (token : Token) :
    parser.unexpected (unplaced chart) (unplaced token) =
      unplaced (parser.unexpected chart token) :=
  congrArg (ParseError.unexpected default token.kind) (ChartParser.expected_unplaced chart.last)

variable (blind : parser.interpretation.Blind)
include blind

theorem step_unplaced (chart : Chart α) (token : Token) :
    parser.step (unplaced chart) (unplaced token) = unplaced (parser.step chart token) := by
  have scanned : parser.scan (unplaced chart).last (unplaced token) =
      unplaced (parser.scan chart.last token) := ChartParser.scan_unplaced blind chart.last token
  unfold step
  dsimp only
  rw [scanned, Column.isEmpty_unplaced, Chart.columns_unplaced, unexpected_unplaced]
  split
  · rfl
  · rw [ChartParser.close_unplaced blind]
    cases parser.close chart.columns (parser.scan chart.last token) <;> rfl

theorem accept_unplaced (chart : Chart α) (token : Token) :
    parser.accept (unplaced chart) (unplaced token) = unplaced (parser.accept chart token) := by
  have spanning : parser.accepted? (unplaced chart).last =
      unplaced (parser.accepted? chart.last) := ChartParser.accepted?_unplaced chart.last
  unfold accept
  rw [spanning, unexpected_unplaced]
  cases parser.accepted? chart.last with
  | none => rfl
  | some state =>
    have reduced : parser.interpretation.reduce (unplaced state).rule (unplaced state).matched =
        unplaced (parser.interpretation.reduce state.rule state.matched) :=
      blind.reduce state.rule state.matched
    dsimp only [unplaced_some]
    rw [reduced]
    cases parser.interpretation.reduce state.rule state.matched <;> rfl

theorem finish_unplaced (chart : Chart α) (token : Token) :
    (parser.finish (unplaced chart) (unplaced token)).1 =
      unplaced (parser.finish chart token).1 := by
  have expects : parser.expected (unplaced chart).last = parser.expected chart.last :=
    ChartParser.expected_unplaced chart.last
  unfold finish
  rw [expects]
  split
  · rw [step_unplaced blind]
    cases parser.step chart token with
    | error reason => rfl
    | ok last => exact accept_unplaced blind last token
  · exact accept_unplaced blind chart token

end Parser

end JavaFrontend
