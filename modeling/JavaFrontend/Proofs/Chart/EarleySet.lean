import JavaFrontend.Proofs.Chart.Rounds
import JavaFrontend.Proofs.Grammar.Derivation
import JavaFrontend.Proofs.Grammar.WellFormed

/-!
The columns of a chart are the Earley sets of its input. A state is in the column behind `k` tokens
if and only if its parts before the dot match the tokens since its origin, and the start exposes
its name behind the tokens before its origin. That states say no more is an invariant of every
operation (`Justified`); that no state is missing follows from what closed columns and scanned
tokens contain (`Exact`), by induction over the derivation that the state stands for.
-/

namespace JavaFrontend

variable {α : Type}

/-! ### Rows of parts and what they are made into -/

/-- The parts stand for the tokens and are made into the values: each token into a leaf, each name
into what one of its rules makes of what its parts are made into. -/
inductive ChartParser.Builds (parser : ChartParser α) :
    List Part → List Token → List α → Prop where
  | nil : Builds parser [] [] []
  | token (token : Token) {parts : List Part} {tokens : List Token} {values : List α}
      (rest : Builds parser parts tokens values) :
    Builds parser (.token token.kind :: parts) (token :: tokens)
      (parser.interpretation.leaf token :: values)
  | rule {id : Nat} {rule : Rule} {parts : List Part} {inner tokens : List Token}
      {operands values : List α} {value : α} (found : parser.grammar.rule? id = some rule)
      (body : Builds parser rule.parts inner operands)
      (made : parser.interpretation.reduce id operands = .ok value)
      (rest : Builds parser parts tokens values) :
    Builds parser (.rule rule.name :: parts) (inner ++ tokens) (value :: values)

namespace ChartParser

variable {parser : ChartParser α} {parts : List Part} {tokens : List Token} {values : List α}

theorem Builds.append {more : List Part} {later : List Token} {others : List α}
    (head : parser.Builds parts tokens values) (tail : parser.Builds more later others) :
    parser.Builds (parts ++ more) (tokens ++ later) (values ++ others) := by
  induction head with
  | nil => exact tail
  | token token _ ih => exact .token token ih
  | rule found body made _ _ ih =>
    rw [List.append_assoc]
    exact .rule found body made ih

/-- What is built matches the kinds of its tokens. -/
theorem Builds.matches (built : parser.Builds parts tokens values) :
    parser.grammar.Matches parts (tokens.map (·.kind)) := by
  induction built with
  | nil => exact .nil
  | token token _ ih => exact .token token.kind ih
  | rule found _ _ _ bodyIh restIh =>
    rw [List.map_append]
    exact .rule (Grammar.rule?_mem found) bodyIh restIh

end ChartParser

/-- No rule is empty, so nothing but an empty row of parts matches no tokens. -/
theorem Grammar.Matches.parts_eq_nil {grammar : Grammar} {parts : List Part}
    (sound : grammar.WellFormed) (matched : grammar.Matches parts []) : parts = [] := by
  generalize empty : ([] : List Kind) = kinds at matched
  induction matched with
  | nil => rfl
  | token => cases empty
  | @rule rule parts inner kinds known _ _ bodyIh _ =>
    obtain ⟨rfl, -⟩ := List.append_eq_nil_iff.mp empty.symm
    exact absurd (bodyIh rfl) (sound.nonempty rule known)

namespace ChartParser

variable {parser : ChartParser α} {tokens : List Token} {state : State α} {column : Column α}
  {columns : Array (Column α)} {k : Nat}

private theorem slice_append {first second third : Nat} (early : first ≤ second)
    (late : second ≤ third) (items : List Token) :
    (items.take second).drop first ++ (items.take third).drop second =
      (items.take third).drop first := by
  have start : items.take second = (items.take third).take second := by
    rw [List.take_take, Nat.min_eq_left late]
  have rest : (items.take third).drop second =
      ((items.take third).drop first).drop (second - first) := by
    rw [List.drop_drop, Nat.add_sub_cancel' early]
  rw [start, rest, List.drop_take, List.take_append_drop]

private theorem slice_succ {first k : Nat} {token : Token} {items : List Token}
    (bound : first ≤ k) (here : items[k]? = some token) :
    (items.take (k + 1)).drop first = (items.take k).drop first ++ [token] := by
  obtain ⟨inside, -⟩ := List.getElem?_eq_some_iff.mp here
  rw [List.take_add_one, here, Option.toList_some, List.drop_append_of_le_length]
  simp only [List.length_take]
  omega

/-! ### What a state says -/

/-- The parser is for a well-formed grammar and predicts its rules. -/
structure Ready (parser : ChartParser α) : Prop where
  sound : parser.grammar.WellFormed
  prepared : parser.predictions = .ofGrammar parser.grammar

theorem Ready.mem_predictions {name : String} {id : Nat} (ready : parser.Ready) :
    id ∈ parser.predictions.get name ↔
      ∃ rule, parser.grammar.rule? id = some rule ∧ rule.name = name := by
  rw [ready.prepared]
  exact ready.sound.mem_predictions

/-- What a state of the column behind `k` tokens says of them is so. -/
def Justified (parser : ChartParser α) (tokens : List Token) (k : Nat) (state : State α) : Prop :=
  ∃ rule, parser.grammar.rule? state.rule = some rule ∧ state.dot ≤ rule.size ∧
    state.origin ≤ k ∧
    parser.Builds (rule.parts.take state.dot) ((tokens.take k).drop state.origin) state.matched ∧
    parser.grammar.Exposes (.rule parser.grammar.start)
      ((tokens.take state.origin).map (·.kind)) (.rule rule.name)

theorem Justified.fits (just : parser.Justified tokens k state) : parser.Fits k state := by
  obtain ⟨rule, found, dot, origin, -⟩ := just
  exact ⟨rule, found, dot, origin⟩

/-- A completed state has what its whole rule was made of. -/
theorem Justified.of_completed (just : parser.Justified tokens k state)
    (completed : state.next? parser.grammar = none) :
    ∃ rule, parser.grammar.rule? state.rule = some rule ∧ state.dot = rule.size ∧
      parser.Builds rule.parts ((tokens.take k).drop state.origin) state.matched := by
  obtain ⟨rule, found, dot, -, built, -⟩ := just
  have past : rule.size ≤ state.dot :=
    (State.isCompleted_iff found).mp (by rw [State.isCompleted, completed]; rfl)
  rw [List.take_of_length_le past] at built
  exact ⟨rule, found, Nat.le_antisymm dot past, built⟩

/-- What stands behind the dot of a state is exposed behind the tokens. -/
theorem Justified.exposes {part : Part} (just : parser.Justified tokens k state)
    (next : state.next? parser.grammar = some part) :
    parser.grammar.Exposes (.rule parser.grammar.start) ((tokens.take k).map (·.kind)) part := by
  obtain ⟨rule, found, -, origin, built, outer⟩ := just
  have split := (State.parts_eq_of_next found next).2
  have inner := outer.inside (Grammar.rule?_mem found) split built.matches
  have whole := slice_append (Nat.zero_le _) origin tokens
  rw [List.drop_zero, List.drop_zero] at whole
  rwa [← List.map_append, whole] at inner

/-- A dot that moves over what its part was made into says what is so of more tokens. -/
theorem Justified.advance {part : Part} {found : α} {later : Nat} (ahead : k ≤ later)
    (just : parser.Justified tokens k state) (next : state.next? parser.grammar = some part)
    (built : parser.Builds [part] ((tokens.take later).drop k) [found]) :
    parser.Justified tokens later (state.advance found) := by
  obtain ⟨rule, ruleFound, -, origin, before, outer⟩ := just
  obtain ⟨bound, -⟩ := State.parts_eq_of_next ruleFound next
  obtain ⟨other, same, behind⟩ := State.next?_eq_some_iff.mp next
  rw [ruleFound] at same
  cases same
  refine ⟨rule, ruleFound, ?_, Nat.le_trans origin ahead, ?_, outer⟩
  · rw [State.dot_advance]
    exact bound
  · have extended := before.append built
    rw [slice_append origin ahead] at extended
    rw [State.dot_advance, List.take_add_one, behind]
    exact extended

theorem justified_predicted {name : String} {id : Nat} (ready : parser.Ready)
    (exposed : parser.grammar.Exposes (.rule parser.grammar.start)
      ((tokens.take k).map (·.kind)) (.rule name))
    (known : id ∈ parser.predictions.get name) :
    parser.Justified tokens k (.predicted id k : State α) := by
  obtain ⟨rule, found, rfl⟩ := ready.mem_predictions.mp known
  refine ⟨rule, found, Nat.zero_le _, Nat.le_refl k, ?_, exposed⟩
  simpa [State.predicted, State.dot] using Builds.nil

/-- The dot of a state is behind its start if and only if there are tokens since its origin. -/
theorem Justified.dot_pos_iff (ready : parser.Ready) (inside : k ≤ tokens.length)
    (just : parser.Justified tokens k state) : 0 < state.dot ↔ state.origin < k := by
  obtain ⟨rule, -, dot, origin, built, -⟩ := just
  have width : ((tokens.take k).drop state.origin).length = k - state.origin := by
    rw [List.length_drop, List.length_take, Nat.min_eq_left inside]
  constructor
  · intro moved
    refine Nat.lt_of_le_of_ne origin fun same => ?_
    have none : (tokens.take k).drop state.origin = [] :=
      List.eq_nil_of_length_eq_zero (by omega)
    have matched := built.matches
    rw [none, List.map_nil] at matched
    have empty := congrArg List.length (matched.parts_eq_nil ready.sound)
    rw [List.length_take, List.length_nil] at empty
    unfold Rule.size at dot
    omega
  · intro passed
    refine Nat.pos_of_ne_zero fun zero => ?_
    rw [zero, List.take_zero] at built
    have none := Grammar.matches_nil.mp built.matches
    have := congrArg List.length none
    rw [List.length_map, width, List.length_nil] at this
    omega

/-! ### What states bring in -/

/-- All states of the columns before one say what is so. -/
def AllJustified (parser : ChartParser α) (tokens : List Token) (columns : Array (Column α)) :
    Prop :=
  ∀ k column, columns[k]? = some column → ∀ state ∈ column.states, parser.Justified tokens k state

theorem sustains_justified (ready : parser.Ready)
    (earlier : parser.AllJustified tokens columns) (bound : columns.size ≤ k) :
    parser.Sustains columns k (parser.Justified tokens k) where
  predicted := by
    intro state name id just next known
    exact justified_predicted ready (just.exposes next) known
  completed := by
    intro state found other just completed made resumed
    obtain ⟨rule, ruleFound, -, built⟩ := just.of_completed completed
    obtain ⟨same, origin, waiting, known, originFound, member, waits, rfl⟩ := mem_resumed.mp resumed
    rw [ruleFound] at known
    cases known
    have before : state.origin ≤ k := by
      obtain ⟨inside, -⟩ := Array.getElem?_eq_some_iff.mp originFound
      omega
    apply (earlier _ _ originFound waiting member).advance before waits
    simpa using Builds.rule ruleFound built made .nil

theorem kept_scan {token : Token} (here : tokens[k]? = some token)
    (all : ∀ state ∈ column.states, parser.Justified tokens k state) :
    parser.Kept (parser.Justified tokens (k + 1)) (parser.scan column token) := by
  refine (kept_empty _).insertAll fun state new => ?_
  obtain ⟨waiting, waits, rfl⟩ := List.mem_map.mp new
  obtain ⟨present, next⟩ := StateSet.mem_waitingOn.mp waits
  apply (all waiting (Column.mem_view.mp present)).advance (Nat.le_succ k) next
  rw [slice_succ (Nat.le_refl k) here]
  simpa using Builds.token token .nil

/-! ### What the columns contain -/

/-- The columns are those of a chart over the tokens: each is closed, and each token has been
scanned. -/
structure Exact (parser : ChartParser α) (tokens : List Token) (columns : Array (Column α)) :
    Prop where
  size : columns.size = tokens.length + 1
  index : ∀ (k : Nat) (column : Column α), columns[k]? = some column → column.index = k
  kept : ∀ (k : Nat) (column : Column α), columns[k]? = some column →
    parser.Kept (parser.Justified tokens k) column
  settled : ∀ (k : Nat) (column : Column α), columns[k]? = some column →
    ∀ state ∈ column.states, parser.Settled columns column state
  started : ∀ column : Column α, columns[0]? = some column →
    ∀ id ∈ parser.predictions.get parser.grammar.start, column.contains ⟨id, 0, 0⟩
  scanned : ∀ (k : Nat) (column next : Column α) (token : Token), columns[k]? = some column →
    columns[k + 1]? = some next → tokens[k]? = some token → ∀ state ∈ column.states,
    state.next? parser.grammar = some (.token token.kind) →
    next.contains ⟨state.rule, state.dot + 1, state.origin⟩

theorem Exact.justified (exact : parser.Exact tokens columns) :
    parser.AllJustified tokens columns :=
  fun k column found => (exact.kept k column found).all

theorem Exact.le_length (exact : parser.Exact tokens columns) (found : columns[k]? = some column) :
    k ≤ tokens.length := by
  have := (Array.getElem?_eq_some_iff.mp found).1
  rw [exact.size] at this
  omega

/-- Some column behind `k` tokens has a state of the key. -/
def Has (columns : Array (Column α)) (k : Nat) (key : StateKey) : Prop :=
  ∃ column, columns[k]? = some column ∧ column.contains key

theorem has_iff_contains {key : StateKey} (found : columns[k]? = some column) :
    Has columns k key ↔ column.contains key := by
  simp [Has, found]

private theorem cons_prefix_drop {β : Type} {item : β} {items whole : List β} {n : Nat}
    (begins : item :: items <+: whole.drop n) :
    whole[n]? = some item ∧ items <+: whole.drop (n + 1) := by
  obtain ⟨rest, same⟩ := begins
  refine ⟨by rw [← List.head?_drop, ← same]; rfl, rest, ?_⟩
  rw [← List.drop_drop, ← same]
  rfl

private theorem append_prefix_drop {β : Type} {first second whole : List β} {n : Nat}
    (begins : first ++ second <+: whole.drop n) :
    first <+: whole.drop n ∧ second <+: whole.drop (n + first.length) := by
  refine ⟨(List.prefix_append first second).trans begins, ?_⟩
  obtain ⟨rest, same⟩ := begins
  rw [← List.drop_drop, ← same, List.append_assoc, List.drop_left]
  exact List.prefix_append second rest

section Completeness

variable (ready : parser.Ready) (exact : parser.Exact tokens columns)
include ready exact

/-- Behind a dot before a name, the rules of the name begin. -/
private theorem has_predicted {key : StateKey} {rule next : Rule} {id : Nat}
    (has : Has columns k key) (found : parser.grammar.rule? key.rule = some rule)
    (behind : rule.parts[key.dot]? = some (.rule next.name))
    (known : parser.grammar.rule? id = some next) : Has columns k ⟨id, 0, k⟩ := by
  obtain ⟨column, columnFound, present⟩ := has
  obtain ⟨state, member, rfl⟩ := Column.contains_iff.mp present
  have waits : state.next? parser.grammar = some (.rule next.name) :=
    State.next?_eq_some_iff.mpr ⟨rule, found, behind⟩
  have answered := (exact.settled k column columnFound state member).predicted next.name id waits
    (ready.mem_predictions.mpr ⟨next, known, rfl⟩)
  rw [exact.index k column columnFound] at answered
  exact ⟨column, columnFound, answered⟩

omit ready in
/-- A dot moves over a rule that is completed between two columns. -/
private theorem has_completed {key : StateKey} {rule inner : Rule} {id first : Nat}
    (has : Has columns first key) (found : parser.grammar.rule? key.rule = some rule)
    (behind : rule.parts[key.dot]? = some (.rule inner.name))
    (known : parser.grammar.rule? id = some inner)
    (completed : Has columns k ⟨id, inner.parts.length, first⟩) :
    Has columns k ⟨key.rule, key.dot + 1, key.origin⟩ := by
  obtain ⟨origin, originFound, present⟩ := has
  obtain ⟨waiting, member, rfl⟩ := Column.contains_iff.mp present
  obtain ⟨column, columnFound, present⟩ := completed
  obtain ⟨state, stateMember, same⟩ := Column.contains_iff.mp present
  obtain ⟨rfl, dot, rfl⟩ := StateKey.mk.inj same
  have atEnd : state.next? parser.grammar = none := by
    rw [State.next?, Grammar.partAt?, known, Option.bind_some, dot]
    exact List.getElem?_eq_none_iff.mpr (Nat.le_refl _)
  exact ⟨column, columnFound, (exact.settled k column columnFound state stateMember).completed
    inner origin waiting atEnd known originFound member
    (State.next?_eq_some_iff.mpr ⟨rule, found, behind⟩)⟩

omit ready in
/-- A dot moves over the token behind its column. -/
private theorem has_scanned {key : StateKey} {rule : Rule} {token : Token}
    (has : Has columns k key) (found : parser.grammar.rule? key.rule = some rule)
    (behind : rule.parts[key.dot]? = some (.token token.kind)) (here : tokens[k]? = some token) :
    Has columns (k + 1) ⟨key.rule, key.dot + 1, key.origin⟩ := by
  obtain ⟨column, columnFound, present⟩ := has
  obtain ⟨state, member, rfl⟩ := Column.contains_iff.mp present
  have inside : k + 1 < columns.size := by
    have := (List.getElem?_eq_some_iff.mp here).1
    rw [exact.size]
    omega
  exact ⟨columns[k + 1], Array.getElem?_eq_getElem inside,
    exact.scanned k column _ token columnFound (Array.getElem?_eq_getElem inside) here state member
      (State.next?_eq_some_iff.mpr ⟨rule, found, behind⟩)⟩

/-- A dot moves over parts that match the tokens behind its column. -/
theorem has_advanced {parts : List Part} {kinds : List Kind}
    (matched : parser.grammar.Matches parts kinds) {key : StateKey} {rule : Rule}
    (has : Has columns k key) (found : parser.grammar.rule? key.rule = some rule)
    (behind : parts <+: rule.parts.drop key.dot)
    (ahead : kinds <+: (tokens.map (·.kind)).drop k) :
    Has columns (k + kinds.length) ⟨key.rule, key.dot + parts.length, key.origin⟩ := by
  induction matched generalizing k key rule with
  | nil => exact has
  | @token kind parts kinds _ ih =>
    obtain ⟨here, partsBehind⟩ := cons_prefix_drop behind
    obtain ⟨kindHere, kindsAhead⟩ := cons_prefix_drop ahead
    rw [List.getElem?_map, Option.map_eq_some_iff] at kindHere
    obtain ⟨token, tokenHere, rfl⟩ := kindHere
    have moved := has_scanned exact has found here tokenHere
    have further := ih moved found partsBehind kindsAhead
    simpa only [List.length_cons, Nat.add_assoc, Nat.add_comm 1] using further
  | @rule inner parts passed kinds known _ _ bodyIh restIh =>
    obtain ⟨here, partsBehind⟩ := cons_prefix_drop behind
    obtain ⟨innerAhead, kindsAhead⟩ := append_prefix_drop ahead
    obtain ⟨id, idFound⟩ := Grammar.exists_rule? known
    have begun := has_predicted ready exact has found here idFound
    have completed := bodyIh begun idFound List.prefix_rfl innerAhead
    rw [Nat.zero_add] at completed
    have moved := has_completed exact has found here idFound completed
    have further := restIh moved found partsBehind kindsAhead
    simpa only [List.length_cons, List.length_append, Nat.add_assoc, Nat.add_comm 1] using further

/-- The rules of a name that is exposed begin behind the tokens. -/
theorem has_exposed {part : Part} {read : List Kind} {id : Nat} {rule : Rule}
    (exposed : parser.grammar.Exposes (.rule parser.grammar.start) read part)
    (same : part = .rule rule.name) (known : parser.grammar.rule? id = some rule)
    (begins : read <+: tokens.map (·.kind)) : Has columns read.length ⟨id, 0, read.length⟩ := by
  induction exposed generalizing id rule with
  | here =>
    have inside : 0 < columns.size := by rw [exact.size]; omega
    refine ⟨columns[0], Array.getElem?_eq_getElem inside,
      exact.started _ (Array.getElem?_eq_getElem inside) id ?_⟩
    exact ready.mem_predictions.mpr ⟨rule, known, (Part.rule.inj same).symm⟩
  | @inside read passed outer before after part _ outerKnown split matched ih =>
    subst same
    obtain ⟨outerId, outerFound⟩ := Grammar.exists_rule? outerKnown
    have begun := ih rfl outerFound ((List.prefix_append read passed).trans begins)
    obtain ⟨rest, begins⟩ := begins
    rw [List.append_assoc] at begins
    have moved := has_advanced ready exact matched begun outerFound
      ⟨_, split.symm⟩ ⟨rest, by rw [← begins, List.drop_left]⟩
    rw [List.length_append]
    refine has_predicted ready exact moved outerFound ?_ known
    rw [split]
    simp

/-- A column has exactly the states that say what is so of the tokens before it. -/
theorem contains_iff_derives {key : StateKey} (found : columns[k]? = some column) :
    column.contains key ↔ ∃ rule, parser.grammar.rule? key.rule = some rule ∧
      key.dot ≤ rule.size ∧ key.origin ≤ k ∧
      parser.grammar.Matches (rule.parts.take key.dot)
        (((tokens.take k).drop key.origin).map (·.kind)) ∧
      parser.grammar.Exposes (.rule parser.grammar.start)
        ((tokens.take key.origin).map (·.kind)) (.rule rule.name) := by
  constructor
  · intro present
    obtain ⟨state, member, rfl⟩ := Column.contains_iff.mp present
    obtain ⟨rule, known, dot, origin, built, exposed⟩ :=
      (exact.kept k column found).all state member
    exact ⟨rule, known, dot, origin, built.matches, exposed⟩
  · rintro ⟨rule, known, dot, origin, matched, exposed⟩
    have inside : k ≤ tokens.length := exact.le_length found
    have width : ((tokens.take key.origin).map (·.kind)).length = key.origin := by
      rw [List.length_map, List.length_take, Nat.min_eq_left (by omega)]
    have begun := has_exposed ready exact exposed rfl known ((List.take_prefix _ _).map _)
    rw [width] at begun
    have moved := has_advanced ready exact matched begun known (List.take_prefix _ _) (by
      rw [← List.map_drop, List.drop_take]
      exact (List.take_prefix _ _).map _)
    have there : key.origin + (((tokens.take k).drop key.origin).map (·.kind)).length = k := by
      rw [List.length_map, List.length_drop, List.length_take]
      omega
    have dotThere : 0 + (rule.parts.take key.dot).length = key.dot := by
      rw [List.length_take, Nat.zero_add]
      exact Nat.min_eq_left dot
    rw [there, dotThere] at moved
    exact (has_iff_contains found).mp moved

end Completeness

/-! ### How the columns come about -/

theorem justified_append {more : List Token} (inside : k ≤ tokens.length) :
    parser.Justified (tokens ++ more) k state ↔ parser.Justified tokens k state := by
  refine exists_congr fun rule => and_congr_right fun _ => and_congr_right fun _ =>
    and_congr_right fun origin => ?_
  rw [List.take_append_of_le_length inside,
    List.take_append_of_le_length (Nat.le_trans origin inside)]

/-- A completed state began before the column it is in. -/
theorem Justified.origin_lt (ready : parser.Ready) (inside : k ≤ tokens.length)
    (just : parser.Justified tokens k state) (completed : state.next? parser.grammar = none) :
    state.origin < k := by
  apply (just.dot_pos_iff ready inside).mp
  obtain ⟨rule, found, dot, -⟩ := just.of_completed completed
  rw [dot]
  exact List.length_pos_of_ne_nil (ready.sound.nonempty rule (Grammar.rule?_mem found))

theorem Settled.of_lookup {earlier : Array (Column α)}
    (settled : parser.Settled earlier column state) (same : state.next? parser.grammar = none →
      columns[state.origin]? = earlier[state.origin]?) : parser.Settled columns column state where
  predicted := settled.predicted
  completed rule origin waiting completed ruleFound originFound :=
    settled.completed rule origin waiting completed ruleFound (same completed ▸ originFound)

private theorem push_cases (columns : Array (Column α)) {next : Column α}
    (found : (columns.push next)[k]? = some column) :
    columns[k]? = some column ∨ k = columns.size ∧ next = column := by
  rw [Array.getElem?_push] at found
  split at found
  · rename_i last
    exact .inr ⟨last, Option.some.inj found⟩
  · exact .inl found

private theorem first_cases {first : Column α} (found : #[first][k]? = some column) :
    k = 0 ∧ first = column := by
  rcases push_cases #[] found with earlier | last
  · simp at earlier
  · exact last

theorem index_firstColumn : parser.firstColumn.index = 0 := (grows_predict _ _).index

theorem kept_firstColumn (ready : parser.Ready) :
    parser.Kept (parser.Justified [] 0) parser.firstColumn :=
  (kept_empty 0).predict fun _ known => justified_predicted ready .here known

theorem sustains_first (ready : parser.Ready) :
    parser.Sustains #[] parser.firstColumn.index (parser.Justified [] 0) := by
  rw [index_firstColumn]
  exact sustains_justified ready (by simp [AllJustified]) (Nat.le_refl 0)

/-- The chart before the first token. -/
theorem exact_first {first : Column α} (ready : parser.Ready)
    (closed : parser.close #[] parser.firstColumn = .ok first) : parser.Exact [] #[first] := by
  have index : parser.firstColumn.index = 0 := index_firstColumn
  obtain ⟨grows, keptFirst, settled⟩ := close_spec (kept_firstColumn ready) (sustains_first ready)
    (fun state just => index ▸ just.fits) closed
  refine ⟨rfl, ?_, ?_, ?_, ?_, ?_⟩
  · intro k column found
    obtain ⟨rfl, rfl⟩ := first_cases found
    exact grows.index.trans index
  · intro k column found
    obtain ⟨rfl, rfl⟩ := first_cases found
    exact keptFirst
  · intro k column found state member
    obtain ⟨rfl, rfl⟩ := first_cases found
    refine (settled state member).of_lookup fun completed => ?_
    exact absurd ((keptFirst.all state member).origin_lt ready (Nat.le_refl 0) completed)
      (Nat.not_lt_zero _)
  · intro column found id known
    obtain rfl : first = column := by simpa using found
    obtain ⟨answered, marked⟩ :=
      answered_predict (kept_empty (Q := fun _ => True) 0).answered parser.grammar.start
    have present := answered parser.grammar.start marked id known
    rw [show (parser.predict parser.grammar.start { index := 0 }).index = 0 from index] at present
    exact grows.contains present
  · intro k column next token _ _ none
    simp at none

theorem contains_scan {token : Token} (member : state ∈ column.states)
    (next : state.next? parser.grammar = some (.token token.kind)) :
    (parser.scan column token).contains ⟨state.rule, state.dot + 1, state.origin⟩ := by
  refine Column.contains_insertAll.mpr (.inr ⟨_, List.mem_map_of_mem ?_, State.key_advance _ _⟩)
  exact StateSet.mem_waitingOn.mpr ⟨Column.mem_view.mpr member, next⟩

section Push

variable {last : Column α} (exact : parser.Exact tokens columns) (token : Token)
include exact

/-- A further token leaves what the states of the columns say as it was. -/
theorem Exact.all_append : parser.AllJustified (tokens ++ [token]) columns :=
  fun k column found state member =>
    (justified_append (exact.le_length found)).mpr (exact.justified k column found state member)

theorem Exact.index_scan (lastFound : columns[tokens.length]? = some last) :
    (parser.scan last token).index = tokens.length + 1 := by
  rw [scan, Column.index_insertAll, exact.index _ _ lastFound]

theorem Exact.kept_scan (lastFound : columns[tokens.length]? = some last) :
    parser.Kept (parser.Justified (tokens ++ [token]) (tokens.length + 1))
      (parser.scan last token) :=
  ChartParser.kept_scan (by simp) (exact.all_append token _ _ lastFound)

theorem Exact.sustains (ready : parser.Ready) : parser.Sustains columns (tokens.length + 1)
    (parser.Justified (tokens ++ [token]) (tokens.length + 1)) :=
  sustains_justified ready (exact.all_append token) (Nat.le_of_eq exact.size)

end Push

/-- The chart behind one more token. -/
theorem Exact.push {token : Token} {last next : Column α} (ready : parser.Ready)
    (exact : parser.Exact tokens columns) (lastFound : columns[tokens.length]? = some last)
    (closed : parser.close columns (parser.scan last token) = .ok next) :
    parser.Exact (tokens ++ [token]) (columns.push next) := by
  have here : (tokens ++ [token])[tokens.length]? = some token := by simp
  have index := exact.index_scan token lastFound
  obtain ⟨grows, keptNext, settled⟩ := close_spec (exact.kept_scan token lastFound)
    (index ▸ exact.sustains token ready) (fun state just => index ▸ just.fits) closed
  refine ⟨by simp [exact.size], ?_, ?_, ?_, ?_, ?_⟩
  · intro k column found
    rcases push_cases columns found with found | ⟨rfl, rfl⟩
    · exact exact.index k column found
    · rw [grows.index, index, exact.size]
  · intro k column found
    rcases push_cases columns found with found | ⟨rfl, rfl⟩
    · have old := exact.kept k column found
      exact ⟨old.distinct, old.answered, exact.all_append token k column found⟩
    · rw [exact.size]
      exact keptNext
  · intro k column found state member
    rcases push_cases columns found with found | ⟨rfl, rfl⟩
    · refine (exact.settled k column found state member).of_lookup fun completed => ?_
      have before := (exact.justified k column found state member).origin_lt ready
        (exact.le_length found) completed
      have := (Array.getElem?_eq_some_iff.mp found).1
      rw [Array.getElem?_push, if_neg (by omega)]
    · refine (settled state member).of_lookup fun completed => ?_
      have before := (keptNext.all state member).origin_lt ready (by simp) completed
      rw [Array.getElem?_push, if_neg (by rw [exact.size]; omega)]
  · intro column found
    rcases push_cases columns found with found | ⟨none, -⟩
    · exact exact.started column found
    · rw [exact.size] at none
      cases none
  · intro k column after other found afterFound otherFound state member waits
    rcases push_cases columns afterFound with afterFound | ⟨atEnd, rfl⟩
    · have inside := (Array.getElem?_eq_some_iff.mp afterFound).1
      rw [Array.getElem?_push, if_neg (by omega)] at found
      rw [exact.size] at inside
      rw [List.getElem?_append_left (by omega)] at otherFound
      exact exact.scanned k column after other found afterFound otherFound state member waits
    · obtain rfl : k = tokens.length := by rw [exact.size] at atEnd; omega
      rw [here] at otherFound
      rw [Array.getElem?_push, if_neg (by omega), lastFound] at found
      cases otherFound
      cases found
      exact grows.contains (contains_scan member waits)

end ChartParser

end JavaFrontend
