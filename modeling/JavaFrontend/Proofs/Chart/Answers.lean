import JavaFrontend.Proofs.Chart.EarleySet

/-!
What a chart answers. The kinds that it expects are those that keep its input viable, in the order
of the kinds; a token has a column if and only if it is expected; and the input is accepted if and
only if the start derives it. A parser that can make something of every rule never fails to close a
column.
-/

namespace JavaFrontend

theorem Kind.all_pairwise_rank : Kind.all.Pairwise fun a b => a.rank < b.rank := by
  have ranks : Kind.all.map Kind.rank = List.range Kind.all.length := by decide
  apply (List.pairwise_map (f := Kind.rank) (R := (· < ·))).mp
  rw [ranks]
  exact List.pairwise_lt_range

namespace ChartParser

variable {α : Type} {parser : ChartParser α} {tokens : List Token} {state : State α}
  {column last : Column α} {columns : Array (Column α)} {token : Token} {kind : Kind}

/-! ### What is expected -/

theorem mem_expected : kind ∈ parser.expected column ↔
    ∃ state ∈ column.states, state.next? parser.grammar = some (.token kind) := by
  simp only [expected, StateSet.mem_awaitedKinds, Column.mem_view]

/-- Expected kinds are in the order of the kinds, each once. -/
theorem expected_pairwise_rank (parser : ChartParser α) (column : Column α) :
    (parser.expected column).Pairwise fun a b => a.rank < b.rank :=
  Kind.all_pairwise_rank.sublist List.filter_sublist

theorem scan_isEmpty_iff : (parser.scan column token).isEmpty ↔
    token.kind ∉ parser.expected column := by
  rw [Column.isEmpty_iff, mem_expected]
  constructor
  · rintro none ⟨state, member, next⟩
    obtain ⟨moved, present, -⟩ := Column.contains_iff.mp (contains_scan member next)
    rw [none] at present
    cases present
  · intro unexpected
    have noneWaits : column.view.waitingOn parser.grammar (.token token.kind) = [] := by
      refine List.eq_nil_iff_forall_not_mem.mpr fun state waits => unexpected ?_
      obtain ⟨present, next⟩ := StateSet.mem_waitingOn.mp waits
      exact ⟨state, Column.mem_view.mp present, next⟩
    simp [scan, noneWaits]

/-- A kind is expected behind tokens if and only if they go on with it. -/
theorem Exact.mem_expected (ready : parser.Ready) (exact : parser.Exact tokens columns)
    (lastFound : columns[tokens.length]? = some last) :
    kind ∈ parser.expected last ↔ parser.grammar.Viable (tokens.map (·.kind) ++ [kind]) := by
  rw [ChartParser.mem_expected, Grammar.viable_append_singleton]
  constructor
  · rintro ⟨state, member, next⟩
    have exposed := (exact.justified _ _ lastFound state member).exposes next
    rwa [List.take_length] at exposed
  · intro exposed
    generalize read : tokens.map (·.kind) = kinds at exposed
    cases exposed with
    | @inside outside passed rule before after _ outer known split matched =>
      obtain ⟨id, found⟩ := Grammar.exists_rule? known
      have width : before.length ≤ rule.size := by simp [Rule.size, split]
      have bound : outside.length ≤ tokens.length := by
        have := congrArg List.length read
        rw [List.length_map, List.length_append] at this
        omega
      have present : last.contains ⟨id, before.length, outside.length⟩ := by
        refine (contains_iff_derives ready exact lastFound).mpr
          ⟨rule, found, width, bound, ?_, ?_⟩
        · simp only [List.take_length, List.map_drop, read, split, List.drop_left, List.take_left]
          exact matched
        · simp only [List.map_take, read, List.take_left]
          exact outer
      obtain ⟨state, member, same⟩ := Column.contains_iff.mp present
      obtain ⟨rfl, dot, -⟩ := StateKey.mk.inj same
      refine ⟨state, member, State.next?_eq_some_iff.mpr ⟨rule, found, ?_⟩⟩
      rw [dot, split]
      simp

/-! ### What is accepted -/

theorem accepted?_eq_some (accepted : parser.accepted? column = some state) :
    state ∈ column.states ∧ state.next? parser.grammar = none ∧ state.origin = 0 ∧
      ∃ rule, parser.grammar.rule? state.rule = some rule ∧ rule.name = parser.grammar.start := by
  obtain ⟨entry, found, rfl⟩ := Option.map_eq_some_iff.mp accepted
  have holds := List.find?_some (Array.find?_toList ▸ found)
  simp only [Bool.and_eq_true, beq_iff_eq, Option.any_eq_true, State.isCompleted,
    Option.isNone_iff_eq_none] at holds
  obtain ⟨⟨completed, origin⟩, rule, known, name⟩ := holds
  refine ⟨List.mem_map_of_mem ?_, completed, origin, rule, known, name⟩
  exact Array.mem_toList_iff.mpr (Array.mem_of_find?_eq_some found)

theorem exists_accepted? {rule : Rule} (member : state ∈ column.states)
    (completed : state.next? parser.grammar = none) (origin : state.origin = 0)
    (known : parser.grammar.rule? state.rule = some rule)
    (name : rule.name = parser.grammar.start) :
    ∃ state, parser.accepted? column = some state := by
  obtain ⟨entry, present, rfl⟩ := List.mem_map.mp member
  apply Option.isSome_iff_exists.mp
  rw [accepted?, Option.isSome_map, Array.find?_isSome]
  refine ⟨entry, Array.mem_toList_iff.mp present, ?_⟩
  simp [State.isCompleted, completed, origin, known, name]

/-- What is accepted was built from the whole input by a rule for the start. -/
theorem Exact.of_accepted (exact : parser.Exact tokens columns)
    (lastFound : columns[tokens.length]? = some last)
    (accepted : parser.accepted? last = some state) :
    ∃ rule, parser.grammar.rule? state.rule = some rule ∧ rule.name = parser.grammar.start ∧
      parser.Builds rule.parts tokens state.matched := by
  obtain ⟨member, completed, origin, rule, known, name⟩ := accepted?_eq_some accepted
  obtain ⟨other, found, -, built⟩ :=
    (exact.justified _ _ lastFound state member).of_completed completed
  rw [known] at found
  cases found
  rw [origin, List.take_length, List.drop_zero] at built
  exact ⟨rule, known, name, built⟩

/-- The input is accepted if and only if the start derives it. -/
theorem Exact.exists_accepted?_iff (ready : parser.Ready) (exact : parser.Exact tokens columns)
    (lastFound : columns[tokens.length]? = some last) :
    (∃ state, parser.accepted? last = some state) ↔
      parser.grammar.Generates [.rule parser.grammar.start] (tokens.map (·.kind)) := by
  rw [← Grammar.matches_iff_derives, Grammar.matches_single_rule]
  constructor
  · rintro ⟨state, accepted⟩
    obtain ⟨rule, known, name, built⟩ := exact.of_accepted lastFound accepted
    exact ⟨rule, Grammar.rule?_mem known, name, built.matches⟩
  · rintro ⟨rule, known, name, matched⟩
    obtain ⟨id, found⟩ := Grammar.exists_rule? known
    have present : last.contains ⟨id, rule.size, 0⟩ := by
      refine (contains_iff_derives ready exact lastFound).mpr
        ⟨rule, found, Nat.le_refl _, Nat.zero_le _, ?_, ?_⟩
      · rw [List.take_length, List.drop_zero, List.take_of_length_le (Nat.le_refl rule.size)]
        exact matched
      · rw [name]
        exact .here
    obtain ⟨state, member, same⟩ := Column.contains_iff.mp present
    obtain ⟨rfl, dot, origin⟩ := StateKey.mk.inj same
    have completed : state.isCompleted parser.grammar :=
      (State.isCompleted_iff found).mpr (Nat.le_of_eq dot.symm)
    exact exists_accepted? member (Option.isNone_iff_eq_none.mp completed) origin found name

/-! ### Closing succeeds -/

/-- The parser makes something of every rule that was built from such tokens. -/
def TotalOn (allowed : Token → Prop) (parser : ChartParser α) : Prop :=
  ∀ id rule tokens operands, parser.grammar.rule? id = some rule →
    (∀ token ∈ tokens, allowed token) → parser.Builds rule.parts tokens operands →
    ∃ value, parser.interpretation.reduce id operands = .ok value

/-- The parser makes something of every rule, whatever its parts were made into. -/
abbrev Total (parser : ChartParser α) : Prop := parser.TotalOn fun _ => True

variable {allowed : Token → Prop}

theorem Justified.reduces {k : Nat} (total : parser.TotalOn allowed)
    (clean : ∀ token ∈ tokens, allowed token) (just : parser.Justified tokens k state)
    (completed : state.next? parser.grammar = none) :
    ∃ value, parser.interpretation.reduce state.rule state.matched = .ok value := by
  obtain ⟨rule, known, -, built⟩ := just.of_completed completed
  exact total state.rule rule _ _ known
    (fun token member => clean token (List.mem_of_mem_take (List.mem_of_mem_drop member))) built

theorem close_first_succeeds (ready : parser.Ready) (total : parser.TotalOn allowed) :
    ∃ first, parser.close #[] parser.firstColumn = .ok first := by
  have index : parser.firstColumn.index = 0 := index_firstColumn
  exact exists_close_eq_ok (kept_firstColumn ready) (sustains_first ready)
    (fun _ just => index ▸ just.fits) fun _ just completed => just.reduces total (by simp) completed

theorem Exact.close_succeeds (ready : parser.Ready) (total : parser.TotalOn allowed)
    (exact : parser.Exact tokens columns) (lastFound : columns[tokens.length]? = some last)
    (clean : ∀ token ∈ tokens, allowed token) (fits : allowed token) :
    ∃ next, parser.close columns (parser.scan last token) = .ok next := by
  have all : ∀ other ∈ tokens ++ [token], allowed other :=
    List.forall_mem_append.mpr ⟨clean, by simpa using fits⟩
  have index := exact.index_scan token lastFound
  exact exists_close_eq_ok (exact.kept_scan token lastFound) (index ▸ exact.sustains token ready)
    (fun _ just => index ▸ just.fits) fun _ just completed => just.reduces total all completed

end ChartParser

end JavaFrontend
