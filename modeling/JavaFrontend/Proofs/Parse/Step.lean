import JavaFrontend.Parse.Pass
import JavaFrontend.Proofs.Chart.Answers

/-!
Charts that have read tokens. A chart reads a token if and only if the tokens with it are viable,
and accepts at the end if and only if the start derives what it has read. A parser that can make
something of every rule fails for no other reason than that.
-/

namespace JavaFrontend.Parser

variable {α : Type} {parser : Parser α} {tokens : List Token} {chart next : Chart α} {token : Token}
  {reason : ParseError}

/-! ### Reading -/

theorem step_ok (ran : parser.step chart token = .ok next) :
    (parser.scan chart.last token).isEmpty = false ∧
      parser.close chart.columns (parser.scan chart.last token) = .ok next.last ∧
      next.earlier = chart.columns := by
  unfold step at ran
  dsimp only at ran
  split at ran
  · cases ran
  · rename_i some
    split at ran
    · rename_i last closed
      cases ran
      exact ⟨eq_false_of_ne_true some, closed, rfl⟩
    · cases ran

/-- The chart has read the tokens one after the other. -/
inductive Reads (parser : Parser α) : List Token → Chart α → Prop where
  | start {first : Column α} (closed : parser.close #[] parser.firstColumn = .ok first) :
    Reads parser [] { earlier := #[], last := first }
  | step {tokens : List Token} {chart next : Chart α} {token : Token}
      (earlier : Reads parser tokens chart) (ran : parser.step chart token = .ok next) :
    Reads parser (tokens ++ [token]) next

theorem last_of_exact (exact : parser.Exact tokens chart.columns) :
    chart.columns[tokens.length]? = some chart.last := by
  have size := exact.size
  rw [Chart.columns, Array.size_push] at size
  have same : chart.earlier.size = tokens.length := Nat.succ.inj size
  rw [← same]
  exact Array.getElem?_push_size

theorem Reads.exact (ready : parser.Ready) (reads : parser.Reads tokens chart) :
    parser.Exact tokens chart.columns := by
  induction reads with
  | start closed => exact ChartParser.exact_first ready closed
  | step _ ran ih =>
    obtain ⟨-, closed, earlier⟩ := step_ok ran
    rw [Chart.columns, earlier]
    exact ih.push ready (last_of_exact ih) closed

theorem Reads.last (ready : parser.Ready) (reads : parser.Reads tokens chart) :
    chart.columns[tokens.length]? = some chart.last :=
  last_of_exact (reads.exact ready)

/-- What was read is viable. -/
theorem Reads.viable (ready : parser.Ready) (reads : parser.Reads tokens chart) :
    parser.grammar.Viable (tokens.map (·.kind)) := by
  cases reads with
  | start => exact Grammar.viable_nil
  | @step tokens chart _ token earlier ran =>
    rw [List.map_append, List.map_singleton,
      ← (earlier.exact ready).mem_expected ready (earlier.last ready)]
    by_contra unexpected
    have stuck := (step_ok ran).1
    rw [ChartParser.scan_isEmpty_iff.mpr unexpected] at stuck
    cases stuck

/-- Some of the tokens are read, and all of them unless one fails. -/
theorem Reads.steps (reads : parser.Reads tokens chart) (more : List Token) :
    ∃ passed left, more = passed ++ left ∧
      parser.Reads (tokens ++ passed) (parser.steps chart more).1 ∧
      ((parser.steps chart more).2 = none ∧ left = [] ∨
        ∃ token later reason, left = token :: later ∧
          (parser.steps chart more).2 = some reason ∧
          parser.step (parser.steps chart more).1 token = .error reason) := by
  induction more generalizing tokens chart with
  | nil => exact ⟨[], [], rfl, by rwa [List.append_nil], .inl ⟨rfl, rfl⟩⟩
  | cons token more ih =>
    cases ran : parser.step chart token with
    | ok next =>
      obtain ⟨passed, left, rfl, further, ended⟩ := ih (reads.step ran)
      rw [Parser.steps, ran]
      refine ⟨token :: passed, left, rfl, ?_, ended⟩
      rwa [List.append_assoc] at further
    | error reason =>
      rw [Parser.steps, ran]
      refine ⟨[], token :: more, rfl, ?_, .inr ⟨token, more, reason, rfl, rfl, ran⟩⟩
      rwa [List.append_nil]

/-! ### Fitting and ending -/

section TotalOn

variable {allowed : Token → Prop} (ready : parser.Ready) (total : parser.TotalOn allowed)
include ready total

/-- A token is read if and only if it keeps the tokens viable. -/
theorem Reads.step_cases_on (reads : parser.Reads tokens chart)
    (clean : ∀ token ∈ tokens, allowed token) (fits : allowed token) :
    (parser.grammar.Viable (tokens.map (·.kind) ++ [token.kind]) ∧
      ∃ next, parser.step chart token = .ok next) ∨
    (¬ parser.grammar.Viable (tokens.map (·.kind) ++ [token.kind]) ∧
      parser.step chart token = .error (parser.unexpected chart token)) := by
  rw [← (reads.exact ready).mem_expected ready (reads.last ready)]
  unfold Parser.step
  dsimp only
  by_cases expected : token.kind ∈ parser.expected chart.last
  · refine .inl ⟨expected, ?_⟩
    have some : ¬ (parser.scan chart.last token).isEmpty :=
      fun empty => ChartParser.scan_isEmpty_iff.mp empty expected
    obtain ⟨last, closed⟩ :=
      (reads.exact ready).close_succeeds ready total (reads.last ready) clean fits
    rw [if_neg some, closed]
    exact ⟨_, rfl⟩
  · refine .inr ⟨expected, ?_⟩
    rw [if_pos (ChartParser.scan_isEmpty_iff.mpr expected)]
    rfl

/-- What was read is accepted if and only if the start derives it, and it is made into what the
rule for the start is made into. -/
theorem Reads.accept_cases_on (reads : parser.Reads tokens chart)
    (clean : ∀ token ∈ tokens, allowed token) (token : Token) :
    (parser.grammar.Generates [.rule parser.grammar.start] (tokens.map (·.kind)) ∧
      ∃ root, parser.accept chart token = .ok root ∧
        parser.Builds [.rule parser.grammar.start] tokens [root]) ∨
    (¬ parser.grammar.Generates [.rule parser.grammar.start] (tokens.map (·.kind)) ∧
      parser.accept chart token = .error (parser.unexpected chart token)) := by
  rw [← (reads.exact ready).exists_accepted?_iff ready (reads.last ready)]
  unfold accept
  cases accepted : parser.accepted? chart.last with
  | none =>
    refine .inr ⟨?_, rfl⟩
    rintro ⟨state, ⟨⟩⟩
  | some state =>
    obtain ⟨rule, known, name, built⟩ := (reads.exact ready).of_accepted (reads.last ready) accepted
    obtain ⟨root, made⟩ := total state.rule rule tokens state.matched known clean built
    refine .inl ⟨⟨state, rfl⟩, root, ?_, ?_⟩
    · dsimp only
      rw [made]
      rfl
    · rw [← name]
      simpa using ChartParser.Builds.rule known built made .nil

end TotalOn

section Total

variable (ready : parser.Ready) (total : parser.Total)
include ready total

theorem Reads.step_cases (reads : parser.Reads tokens chart) (token : Token) :
    (parser.grammar.Viable (tokens.map (·.kind) ++ [token.kind]) ∧
      ∃ next, parser.step chart token = .ok next) ∨
    (¬ parser.grammar.Viable (tokens.map (·.kind) ++ [token.kind]) ∧
      parser.step chart token = .error (parser.unexpected chart token)) :=
  reads.step_cases_on ready total (fun _ _ => trivial) trivial

theorem Reads.accept_cases (reads : parser.Reads tokens chart) (token : Token) :
    (parser.grammar.Generates [.rule parser.grammar.start] (tokens.map (·.kind)) ∧
      ∃ root, parser.accept chart token = .ok root ∧
        parser.Builds [.rule parser.grammar.start] tokens [root]) ∨
    (¬ parser.grammar.Generates [.rule parser.grammar.start] (tokens.map (·.kind)) ∧
      parser.accept chart token = .error (parser.unexpected chart token)) :=
  reads.accept_cases_on ready total (fun _ _ => trivial) token

end Total

end JavaFrontend.Parser
