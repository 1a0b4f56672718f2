import JavaFrontend.Proofs.Grammar.TokenRows
import JavaFrontend.Proofs.Parse.Tapes

/-!
What a parse does with a list of tokens. Without shifts there is one pass, and it reads the
significant tokens one after the other, then the end mark (`readOn`). It gets as far as the tokens
are viable and the text of each is one.
-/

namespace JavaFrontend

variable {α : Type}

/-- The start derives the kinds with the end mark behind them if some row that it derives begins
like this, and without it otherwise. -/
def Grammar.Accepts (grammar : Grammar) (kinds : List Kind) : Prop :=
  (grammar.Viable (kinds ++ [.endOfInput]) ∧
      grammar.Generates [.rule grammar.start] (kinds ++ [.endOfInput])) ∨
    (¬ grammar.Viable (kinds ++ [.endOfInput]) ∧ grammar.Generates [.rule grammar.start] kinds)

/-- Rows of tokens without an end mark are accepted as they are. -/
theorem Grammar.HasRows.accepts_iff {grammar : Grammar} {rows : List (List Kind)}
    {kinds : List Kind} (only : grammar.HasRows rows) (unmarked : ∀ row ∈ rows, .endOfInput ∉ row) :
    grammar.Accepts kinds ↔ kinds ∈ rows := by
  have stuck : ¬ grammar.Viable (kinds ++ [Kind.endOfInput]) := by
    rw [only.viable_iff]
    rintro (none | ⟨row, among, begins⟩)
    · simp at none
    · exact unmarked row among (begins.subset (by simp))
  simp only [Accepts, stuck, only.generates_iff, not_false_iff, false_and, true_and, false_or]

/-- No significant token is an end mark or a shift. -/
def TokenList.Plain (source : TokenList) : Prop :=
  ∀ token ∈ source.significant, token.kind ≠ .endOfInput ∧ token.kind.isRightShift = false

namespace Parser

variable {parser : Parser α} {tokens more : List Token} {chart : Chart α} {finish : Token}

/-! ### Reading one token after the other -/

/-- What comes of reading the tokens in turn and the end mark behind them. -/
def readOn (parser : Parser α) (finish : Token) (chart : Chart α) :
    List Token → Except ParseError α
  | [] => (parser.finish chart finish).1
  | token :: rest =>
    match token.error? with
    | some fault => .error (.lexical token.position fault)
    | none =>
      match parser.step chart token with
      | .ok next => parser.readOn finish next rest
      | .error reason => .error reason

theorem steps_pieces {splits : List Position} {token : Token}
    (single : token.kind.isRightShift = false) (chart : Chart α) :
    parser.steps chart (pieces splits token) =
      match parser.step chart token with
      | .ok next => (next, none)
      | .error reason => (chart, some reason) := by
  have alone : pieces splits token = [token] := by simp [pieces, isSplit, single]
  rw [alone, Parser.steps]
  cases parser.step chart token <;> rfl

/-- Tokens none of which is a shift are read one after the other, and nothing is noted down. -/
theorem readSplit_single {splits : List Position} (chart : Chart α) (shifts : List Position)
    (single : ∀ token ∈ more, token.kind.isRightShift = false) :
    parser.readSplit splits finish chart shifts more =
      (parser.readOn finish chart more, shifts) := by
  induction more generalizing chart with
  | nil => rfl
  | cons token more ih =>
    obtain ⟨here, later⟩ := List.forall_mem_cons.mp single
    simp only [readSplit, readOn, steps_pieces here, notes, here, Bool.false_and]
    cases token.error? with
    | some fault => rfl
    | none =>
      cases parser.step chart token with
      | ok next => exact ih next later
      | error reason => rfl

theorem Reads.viable_of_readOn {root : α} (ready : parser.Ready)
    (reads : parser.Reads tokens chart) (parsed : parser.readOn finish chart more = .ok root) :
    parser.grammar.Viable ((tokens ++ more).map (·.kind)) := by
  induction more generalizing tokens chart with
  | nil =>
    rw [List.append_nil]
    exact reads.viable ready
  | cons token more ih =>
    rw [readOn] at parsed
    split at parsed
    · cases parsed
    · split at parsed
      · rename_i next ran
        rw [List.append_cons]
        exact ih (reads.step ran) parsed
      · cases parsed

section TotalOn

variable {allowed : Token → Prop} (ready : parser.Ready) (total : parser.TotalOn allowed)
  (before : ∀ token ∈ tokens, allowed token)
include ready total before

/-- Tokens that are viable and none of which is an error are read. -/
theorem Reads.readOn_append_on (reads : parser.Reads tokens chart) (finish : Token)
    (rest : List Token) (fits : ∀ token ∈ more, allowed token)
    (clean : ∀ token ∈ more, token.error? = none)
    (viable : parser.grammar.Viable ((tokens ++ more).map (·.kind))) :
    ∃ next, parser.Reads (tokens ++ more) next ∧
      parser.readOn finish chart (more ++ rest) = parser.readOn finish next rest := by
  induction more generalizing tokens chart with
  | nil => exact ⟨chart, by rwa [List.append_nil], rfl⟩
  | cons token more ih =>
    obtain ⟨here, later⟩ := List.forall_mem_cons.mp clean
    obtain ⟨fitsHere, fitsLater⟩ := List.forall_mem_cons.mp fits
    rw [List.append_cons] at viable ⊢
    rcases reads.step_cases_on ready total before fitsHere with ⟨-, next, ran⟩ | ⟨stuck, -⟩
    · obtain ⟨last, further, same⟩ :=
        ih (List.forall_mem_append.mpr ⟨before, by simpa using fitsHere⟩) (reads.step ran)
          fitsLater later viable
      refine ⟨last, further, ?_⟩
      rw [← same, List.cons_append, readOn, here]
      dsimp only
      rw [ran]
    · refine absurd ?_ stuck
      rw [List.map_append, List.map_append] at viable
      exact viable.of_append

/-- Behind the tokens, the end mark is read if it keeps them viable; then all is accepted or
not. -/
theorem Reads.finish_eq_on (reads : parser.Reads tokens chart) (fits : allowed finish)
    (ended : finish.kind = .endOfInput) :
    (parser.grammar.Viable (tokens.map (·.kind) ++ [Kind.endOfInput]) ∧
      ∃ next, parser.Reads (tokens ++ [finish]) next ∧
        (parser.finish chart finish).1 = parser.accept next finish) ∨
    (¬ parser.grammar.Viable (tokens.map (·.kind) ++ [Kind.endOfInput]) ∧
      (parser.finish chart finish).1 = parser.accept chart finish) := by
  have asked : (parser.expected chart.last).contains .endOfInput ↔
      parser.grammar.Viable (tokens.map (·.kind) ++ [Kind.endOfInput]) := by
    rw [List.contains_iff_mem]
    exact (reads.exact ready).mem_expected ready (reads.last ready)
  unfold Parser.finish
  rcases reads.step_cases_on ready total before fits with ⟨viable, next, ran⟩ | ⟨stuck, -⟩
  · rw [ended] at viable
    refine .inl ⟨viable, next, reads.step ran, ?_⟩
    rw [if_pos (asked.mpr viable), ran]
  · rw [ended] at stuck
    refine .inr ⟨stuck, ?_⟩
    rw [if_neg fun asks => stuck (asked.mp asks)]

/-- What was read is made into something at the end if and only if the grammar accepts it. -/
theorem Reads.exists_finish_iff_on (reads : parser.Reads tokens chart) (fits : allowed finish)
    (ended : finish.kind = .endOfInput) :
    (∃ root, (parser.finish chart finish).1 = .ok root) ↔
      parser.grammar.Accepts (tokens.map (·.kind)) := by
  unfold Grammar.Accepts
  have accepts {tokens : List Token} {chart : Chart α} (before : ∀ token ∈ tokens, allowed token)
      (reads : parser.Reads tokens chart) :
      (∃ root, parser.accept chart finish = .ok root) ↔
        parser.grammar.Generates [.rule parser.grammar.start] (tokens.map (·.kind)) := by
    rcases reads.accept_cases_on ready total before finish with
      ⟨derived, root, made, -⟩ | ⟨stuck, refused⟩
    · exact ⟨fun _ => derived, fun _ => ⟨root, made⟩⟩
    · simp [refused, stuck]
  rcases reads.finish_eq_on ready total before fits ended with
    ⟨viable, next, further, same⟩ | ⟨stuck, same⟩
  · rw [same, accepts (List.forall_mem_append.mpr ⟨before, by simpa using fits⟩) further]
    simp [viable, ended]
  · rw [same, accepts before reads]
    simp [stuck]

/-- Tokens none of which is an error are read on to something if and only if the grammar accepts
them with those before. -/
theorem Reads.exists_readOn_iff_on (reads : parser.Reads tokens chart) (fits : allowed finish)
    (ended : finish.kind = .endOfInput) (fit : ∀ token ∈ more, allowed token)
    (clean : ∀ token ∈ more, token.error? = none) :
    (∃ root, parser.readOn finish chart more = .ok root) ↔
      parser.grammar.Accepts ((tokens ++ more).map (·.kind)) := by
  by_cases viable : parser.grammar.Viable ((tokens ++ more).map (·.kind))
  · obtain ⟨last, further, same⟩ :=
      reads.readOn_append_on ready total before finish [] fit clean viable
    rw [List.append_nil] at same
    rw [same]
    exact further.exists_finish_iff_on ready total
      (List.forall_mem_append.mpr ⟨before, fit⟩) fits ended
  · constructor
    · rintro ⟨root, parsed⟩
      exact absurd (reads.viable_of_readOn ready parsed) viable
    · rintro (⟨longer, -⟩ | ⟨-, derived⟩)
      · exact absurd longer.of_append viable
      · exact absurd (Grammar.Viable.of_generates derived) viable

/-- What tokens are read on to is built of them and of those before, with the end mark or without
it. -/
theorem Reads.builds_of_readOn_on {root : α} (reads : parser.Reads tokens chart)
    (fits : allowed finish) (ended : finish.kind = .endOfInput)
    (fit : ∀ token ∈ more, allowed token) (parsed : parser.readOn finish chart more = .ok root) :
    ∃ passed, passed <+: [finish] ∧
      parser.Builds [.rule parser.grammar.start] (tokens ++ more ++ passed) [root] := by
  have builds {tokens : List Token} {chart : Chart α} (before : ∀ token ∈ tokens, allowed token)
      (reads : parser.Reads tokens chart) (made : parser.accept chart finish = .ok root) :
      parser.Builds [.rule parser.grammar.start] tokens [root] := by
    rcases reads.accept_cases_on ready total before finish with ⟨-, _, same, built⟩ | ⟨-, refused⟩
    · rw [made] at same
      cases same
      exact built
    · rw [made] at refused
      cases refused
  induction more generalizing tokens chart with
  | nil =>
    rw [readOn] at parsed
    rw [List.append_nil]
    rcases reads.finish_eq_on ready total before fits ended with ⟨-, next, further, same⟩ | ⟨-, same⟩
    · refine ⟨[finish], List.prefix_rfl, builds ?_ further (same ▸ parsed)⟩
      exact List.forall_mem_append.mpr ⟨before, by simpa using fits⟩
    · exact ⟨[], List.nil_prefix, by
        rw [List.append_nil]
        exact builds before reads (same ▸ parsed)⟩
  | cons token more ih =>
    obtain ⟨here, later⟩ := List.forall_mem_cons.mp fit
    rw [readOn] at parsed
    split at parsed
    · cases parsed
    · split at parsed
      · rename_i next ran
        rw [List.append_cons]
        exact ih (List.forall_mem_append.mpr ⟨before, by simpa using here⟩) (reads.step ran) later
          parsed
      · cases parsed

end TotalOn

section Total

variable (ready : parser.Ready) (total : parser.Total)
include ready total

theorem parse_list {source : TokenList} (plain : source.Plain) :
    ∃ chart, parser.Reads [] chart ∧ parser.parse (.list source) =
      parser.readOn (.endOfInput source.finish) chart source.significant := by
  obtain ⟨chart, start, same⟩ := pass_eq_readSplit ready total [] (fun token member =>
    (plain token member).1) (Tape.stands_start source)
  rw [readSplit_single chart [] fun token member => (plain token member).2] at same
  obtain ⟨outcome, unchanged⟩ := Prod.mk.inj same
  refine ⟨chart, start, ?_⟩
  rw [parse_of_final, outcome]
  rw [Pass.retry?, unchanged]
  split <;> rfl

theorem Reads.readOn_append (reads : parser.Reads tokens chart) (finish : Token)
    (rest : List Token) (clean : ∀ token ∈ more, token.error? = none)
    (viable : parser.grammar.Viable ((tokens ++ more).map (·.kind))) :
    ∃ next, parser.Reads (tokens ++ more) next ∧
      parser.readOn finish chart (more ++ rest) = parser.readOn finish next rest :=
  reads.readOn_append_on ready total (fun _ _ => trivial) finish rest (fun _ _ => trivial) clean
    viable

theorem Reads.finish_eq (reads : parser.Reads tokens chart) (ended : finish.kind = .endOfInput) :
    (parser.grammar.Viable (tokens.map (·.kind) ++ [Kind.endOfInput]) ∧
      ∃ next, parser.Reads (tokens ++ [finish]) next ∧
        (parser.finish chart finish).1 = parser.accept next finish) ∨
    (¬ parser.grammar.Viable (tokens.map (·.kind) ++ [Kind.endOfInput]) ∧
      (parser.finish chart finish).1 = parser.accept chart finish) :=
  reads.finish_eq_on ready total (fun _ _ => trivial) trivial ended

theorem Reads.exists_readOn_iff (reads : parser.Reads tokens chart)
    (ended : finish.kind = .endOfInput) (clean : ∀ token ∈ more, token.error? = none) :
    (∃ root, parser.readOn finish chart more = .ok root) ↔
      parser.grammar.Accepts ((tokens ++ more).map (·.kind)) :=
  reads.exists_readOn_iff_on ready total (fun _ _ => trivial) trivial ended (fun _ _ => trivial)
    clean

/-- A list of tokens none of which is an error is parsed if and only if the grammar accepts it. -/
theorem exists_parse_list_iff {source : TokenList} (plain : source.Plain)
    (clean : ∀ token ∈ source.significant, token.error? = none) :
    (∃ root, parser.parse (.list source) = .ok root) ↔
      parser.grammar.Accepts (source.significant.map (·.kind)) := by
  obtain ⟨chart, start, run⟩ := parse_list ready total plain
  rw [run]
  exact start.exists_readOn_iff ready total rfl clean

end Total

end Parser

end JavaFrontend
