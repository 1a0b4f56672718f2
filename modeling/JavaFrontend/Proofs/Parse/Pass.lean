import JavaFrontend.Proofs.Parse.Step

/-!
What a pass does with its tape. Whatever it comes to, its columns are those of a chart that has
read, one by one, the first of the tokens that were taken from the tape. So the columns of every
pass are the Earley sets of what it has scanned.
-/

namespace JavaFrontend

variable {α : Type}

namespace Tape

variable {tape rest : Tape} {inTypes : Option Bool} {token : Token} {reason : ParseError}

theorem read_of_next (ran : tape.next inTypes = .ok (token, rest)) :
    rest.read = token :: tape.read := by
  unfold next at ran
  split at ran
  · cases ran
    rfl
  · dsimp only at ran
    split at ran
    · cases ran
    · cases ran
      rfl

/-- Only a token whose text is no token keeps the tape from going on. -/
theorem next_error (failed : tape.next inTypes = .error reason) :
    ∃ position fault, reason = .lexical position fault := by
  unfold next at failed
  split at failed
  · cases failed
  · dsimp only at failed
    split at failed
    · cases failed
      exact ⟨_, _, rfl⟩
    · cases failed

end Tape

namespace Parser

variable {parser : Parser α} {tokens more : List Token} {chart next : Chart α} {token : Token}
  {splits : List Position} {tape rest : Tape} {inTypes : Option Bool} {reason : ParseError}

/-! ### The run over a tape -/

/-- The tokens that stand for those read from the tape, if the shifts at the places are split. -/
def taken (splits : List Position) (tape : Tape) : List Token :=
  tape.read.reverse.flatMap (pieces splits)

theorem taken_next (ran : tape.next inTypes = .ok (token, rest)) :
    taken splits rest = taken splits tape ++ pieces splits token := by
  simp [taken, Tape.read_of_next ran]

theorem pieces_endOfInput (ended : token.kind = .endOfInput) : pieces splits token = [token] := by
  simp [pieces, isSplit, Kind.isRightShift, ended]

/-- What a pass that has taken the tokens can come to behind a chart. -/
inductive Ends (parser : Parser α) (taken : List Token) (chart : Chart α) :
    Except ParseError α → Prop where
  | lexical (position : Position) (fault : LexError) :
    Ends parser taken chart (.error (.lexical position fault))
  | stopped {token : Token} {reason : ParseError} (read : token ∈ taken)
      (failed : parser.step chart token = .error reason) :
    Ends parser taken chart (.error reason)
  | accepted (token : Token) : Ends parser taken chart (parser.accept chart token)

/-- The pass ended behind the tokens, with the chart that has read them. -/
structure Came (parser : Parser α) (splits : List Position) (pass : Pass α) (tokens : List Token)
    (chart : Chart α) : Prop where
  reads : parser.Reads tokens chart
  columns : pass.columns = chart.columns
  taken : tokens <+: Parser.taken splits pass.tape
  ends : parser.Ends (Parser.taken splits pass.tape) chart pass.outcome
  /-- A pass that makes something of its input has taken the end mark last and read all before. -/
  whole : ∀ root, pass.outcome = .ok root → ∃ (before : List Token) (finish : Token),
    finish.kind = .endOfInput ∧ Parser.taken splits pass.tape = before ++ [finish] ∧
      (tokens = before ∨ tokens = before ++ [finish])

theorem finish_cases (reads : parser.Reads tokens chart) (read : token ∈ more) :
    ∃ passed, passed <+: [token] ∧
      parser.Reads (tokens ++ passed) (parser.finish chart token).2 ∧
      parser.Ends more (parser.finish chart token).2 (parser.finish chart token).1 := by
  unfold finish
  split
  · cases ran : parser.step chart token with
    | ok next => exact ⟨[token], List.prefix_rfl, reads.step ran, .accepted token⟩
    | error reason =>
      exact ⟨[], List.nil_prefix, by rwa [List.append_nil], .stopped read ran⟩
  · exact ⟨[], List.nil_prefix, by rwa [List.append_nil], .accepted token⟩

/-- A pass that goes on from what it has taken ends with a chart of what it has taken. -/
theorem came_continuePass (chart : Chart α) (shifts : List Position) (tape : Tape)
    (reads : parser.Reads (taken splits tape) chart) :
    ∃ tokens last,
      parser.Came splits (parser.continuePass splits chart shifts tape) tokens last := by
  fun_induction continuePass parser splits chart shifts tape with
  | case1 chart shifts tape inTypes reason failed =>
    obtain ⟨position, fault, rfl⟩ := Tape.next_error failed
    exact ⟨_, chart, reads, rfl, List.prefix_rfl, .lexical position fault, fun root => by simp⟩
  | case2 chart shifts tape inTypes token rest ran ended outcome last finished =>
    have all : taken splits rest = taken splits tape ++ [token] := by
      rw [taken_next ran, pieces_endOfInput ended]
    have read : token ∈ taken splits rest := by simp [all]
    obtain ⟨passed, begins, further, ends⟩ := finish_cases reads read
    rw [finished] at further ends
    refine ⟨_, last, further, rfl, ?_, ends, fun root _ => ⟨_, token, ended, all, ?_⟩⟩
    · rw [all]
      exact List.prefix_append_right_inj _ |>.mpr begins
    · rcases List.prefix_cons_iff.mp begins with rfl | ⟨_, rfl, none⟩
      · exact .inl (List.append_nil _)
      · exact .inr (by rw [List.prefix_nil.mp none])
  | case3 chart shifts tape inTypes token rest ran _ ambiguous noted last reason stepped =>
    obtain ⟨passed, left, split, further, ⟨none, -⟩ | ⟨refused, later, reason, rfl, same, failed⟩⟩ :=
      reads.steps (pieces splits token)
    · rw [stepped] at none
      cases none
    · rw [stepped] at further same failed
      cases same
      have read : refused ∈ taken splits rest := by simp [taken_next ran, split]
      refine ⟨_, last, further, rfl, ?_, .stopped read failed, fun root => by simp⟩
      rw [taken_next ran, split]
      exact List.prefix_append_right_inj _ |>.mpr (List.prefix_append passed _)
  | case4 chart shifts tape inTypes token rest ran _ ambiguous noted last stepped ih =>
    obtain ⟨passed, left, split, further, ⟨-, rfl⟩ | ⟨_, _, reason, -, same, -⟩⟩ :=
      reads.steps (pieces splits token)
    · rw [List.append_nil] at split
      rw [stepped, ← split, ← taken_next ran] at further
      exact ih further
    · rw [stepped] at same
      cases same

theorem pass_cases (parser : Parser α) (splits : List Position) (tape : Tape)
    (unread : tape.read = []) :
    (∃ reason, parser.close #[] parser.firstColumn = .error reason ∧
      parser.pass splits tape =
        { outcome := .error (.internal reason), columns := #[], shifts := [], tape }) ∨
    ∃ tokens chart, parser.Came splits (parser.pass splits tape) tokens chart := by
  unfold pass
  cases closed : parser.close #[] parser.firstColumn with
  | error reason => exact .inl ⟨reason, rfl, rfl⟩
  | ok first =>
    refine .inr (came_continuePass _ _ tape ?_)
    rw [taken, unread]
    exact .start closed

end Parser

/-! ### What a pass has scanned -/

/-- The tokens between the columns of a pass that took the shifts at the places as single `>`. -/
def Pass.scanned (splits : List Position) (pass : Pass α) : List Token :=
  (Parser.taken splits pass.tape).take (pass.columns.size - 1)

namespace Parser

variable {parser : Parser α} {splits : List Position} {tape : Tape} {tokens : List Token}
  {chart : Chart α} {pass : Pass α}

theorem Came.scanned_eq (ready : parser.Ready) (came : parser.Came splits pass tokens chart) :
    pass.scanned splits = tokens := by
  obtain ⟨rest, same⟩ := came.taken
  have size := (came.reads.exact ready).size
  rw [Pass.scanned, came.columns, size, ← same, Nat.add_sub_cancel, List.take_left]

theorem exact_of_pass (ready : parser.Ready) (unread : tape.read = []) {k : Nat}
    {column : Column α} (closed : (parser.pass splits tape).columns[k]? = some column) :
    parser.Exact ((parser.pass splits tape).scanned splits) (parser.pass splits tape).columns := by
  obtain ⟨reason, -, failed⟩ | ⟨tokens, chart, came⟩ := parser.pass_cases splits tape unread
  · rw [failed] at closed
    simp at closed
  · rw [came.scanned_eq ready, came.columns]
    exact came.reads.exact ready

section TotalOn

variable {allowed : Token → Prop} (ready : parser.Ready) (total : parser.TotalOn allowed)
include ready total

/-- A pass that ends behind a chart does not blame the grammar and the builder, and what it makes
of its input was built from the tokens that the chart has read. -/
private theorem outcome_of_ends {taken : List Token} (clean : ∀ token ∈ taken, allowed token)
    (within : tokens ⊆ taken) (reads : parser.Reads tokens chart) {outcome : Except ParseError α}
    (ends : parser.Ends taken chart outcome) :
    (∀ reason, outcome ≠ .error (.internal reason)) ∧
      ∀ root, outcome = .ok root → parser.Builds [.rule parser.grammar.start] tokens [root] := by
  have before (token : Token) (member : token ∈ tokens) : allowed token :=
    clean token (within member)
  cases ends with
  | lexical position fault =>
    exact ⟨fun reason => by simp, fun root => by simp⟩
  | @stopped token reason read failed =>
    rcases reads.step_cases_on ready total before (clean token read) with
      ⟨-, next, ran⟩ | ⟨-, ran⟩
    · rw [ran] at failed
      cases failed
    · rw [ran] at failed
      cases failed
      exact ⟨fun reason => by simp [unexpected], fun root => by simp⟩
  | accepted token =>
    rcases reads.accept_cases_on ready total before token with
      ⟨-, root, accepted, built⟩ | ⟨-, refused⟩
    · rw [accepted]
      refine ⟨fun reason => by simp, fun other same => ?_⟩
      cases same
      exact built
    · rw [refused]
      exact ⟨fun reason => by simp [unexpected], fun root => by simp⟩

/-- A pass that takes only tokens of which the parser makes something does not blame the grammar and
the builder, and what it makes of its input was built from what it has scanned. -/
theorem outcome_of_pass (unread : tape.read = [])
    (clean : ∀ token ∈ taken splits (parser.pass splits tape).tape, allowed token) :
    (∀ reason, (parser.pass splits tape).outcome ≠ .error (.internal reason)) ∧
      ∀ root, (parser.pass splits tape).outcome = .ok root →
        parser.Builds [.rule parser.grammar.start] ((parser.pass splits tape).scanned splits)
          [root] := by
  obtain ⟨reason, failed, -⟩ | ⟨tokens, chart, came⟩ := parser.pass_cases splits tape unread
  · obtain ⟨first, closed⟩ := ChartParser.close_first_succeeds ready total
    rw [closed] at failed
    cases failed
  · rw [came.scanned_eq ready]
    exact outcome_of_ends ready total clean came.taken.subset came.reads came.ends

/-- And something is made of every rule that completes in one of its columns. -/
theorem reduces_of_pass (unread : tape.read = [])
    (clean : ∀ token ∈ taken splits (parser.pass splits tape).tape, allowed token)
    {column : Column α} (closed : column ∈ (parser.pass splits tape).columns) {state : State α}
    (member : state ∈ column.states) (completed : state.isCompleted parser.grammar) :
    ∃ value, parser.interpretation.reduce state.rule state.matched = .ok value := by
  obtain ⟨k, found⟩ := Array.mem_iff_getElem?.mp closed
  have scanned (token : Token) (read : token ∈ (parser.pass splits tape).scanned splits) :
      allowed token := clean token (List.mem_of_mem_take read)
  exact ((exact_of_pass ready unread found).justified k column found state member).reduces total
    scanned (Option.isNone_iff_eq_none.mp completed)

end TotalOn

/-- A parser that makes something of every rule closes a first column. -/
theorem exists_first_column (ready : parser.Ready) (total : parser.Total)
    (splits : List Position) (tape : Tape) (unread : tape.read = []) :
    ∃ column, (parser.pass splits tape).columns[0]? = some column := by
  obtain ⟨reason, failed, -⟩ | ⟨tokens, chart, came⟩ := parser.pass_cases splits tape unread
  · obtain ⟨first, closed⟩ := ChartParser.close_first_succeeds ready total
    rw [closed] at failed
    cases failed
  · have size := (came.reads.exact ready).size
    rw [came.columns]
    exact ⟨_, Array.getElem?_eq_getElem (by omega)⟩

/-- The parser for the grammar that makes of its input what the interpretation says. -/
def ofGrammar (grammar : Grammar) (interpretation : Interpretation α) (typeContext : Bool) :
    Parser α :=
  { grammar, interpretation, typeContext }

theorem ready_ofGrammar {draft : GrammarDraft} {grammar : Grammar}
    (built : draft.build = .ok grammar) (interpretation : Interpretation α) (typeContext : Bool) :
    (ofGrammar grammar interpretation typeContext).Ready :=
  ⟨GrammarDraft.well_formed_of_build built, rfl⟩

/-- The columns of every pass are the Earley sets of what it has scanned. A column has a state if
and only if the parts before the dot derive the tokens since its origin, and a leftmost derivation
from the start leads over the tokens before its origin to the name of the rule. Each key occurs
once, the dot counts what was matched, and it is in front if and only if the state began in the
column itself, so that a completed state began in an earlier column. -/
theorem pass_columns_eq_earley_sets {draft : GrammarDraft} {grammar : Grammar}
    (built : draft.build = .ok grammar) (interpretation : Interpretation α) (typeContext : Bool)
    (splits : List Position) (tape : Tape) (unread : tape.read = []) (k : Nat)
    (column : Column α)
    (closed : ((ofGrammar grammar interpretation typeContext).pass splits tape).columns[k]? =
      some column) :
    let pass := (ofGrammar grammar interpretation typeContext).pass splits tape
    let kinds := (pass.scanned splits).map (·.kind)
    (∀ id dot origin, (∃ state ∈ column.states, state.key = ⟨id, dot, origin⟩) ↔
      ∃ rule, grammar.rule? id = some rule ∧ dot ≤ rule.size ∧ origin ≤ k ∧
        grammar.Generates (rule.parts.take dot) ((kinds.take k).drop origin) ∧
        ∃ rest, grammar.DerivesLeftmost [.rule grammar.start]
          ((kinds.take origin).map .token ++ .rule rule.name :: rest)) ∧
    (column.states.map State.key).Nodup ∧
    (∀ state ∈ column.states, state.key.dot = state.matched.length ∧
      (0 < state.key.dot ↔ state.origin < k)) ∧
    ∀ state ∈ column.states, state.isCompleted grammar →
      state.origin < k ∧ ∃ origin, pass.columns[state.origin]? = some origin := by
  intro pass kinds
  have ready := ready_ofGrammar built interpretation typeContext
  have exact := exact_of_pass ready unread closed
  have inside := exact.le_length closed
  refine ⟨?_, (exact.kept k column closed).distinct, ?_, ?_⟩
  · intro id dot origin
    rw [← Column.contains_iff, ChartParser.contains_iff_derives ready exact closed]
    simp only [Grammar.matches_iff_derives, Grammar.exposes_iff_derives_leftmost, List.map_drop,
      List.map_take]
    exact Iff.rfl
  · intro state member
    exact ⟨rfl, (exact.justified k column closed state member).dot_pos_iff ready inside⟩
  · intro state member completed
    have before := (exact.justified k column closed state member).origin_lt ready inside
      (Option.isNone_iff_eq_none.mp completed)
    have bound := (Array.getElem?_eq_some_iff.mp closed).1
    exact ⟨before, _, Array.getElem?_eq_getElem (Nat.lt_trans before bound)⟩

/-- The first column of a recogniser for lines has the first rule with its dot in front. -/
theorem line_in_first_column : GrammarDraft.lines.build = .ok GrammarDraft.lineGrammar ∧ ∃ column,
    ((ofGrammar GrammarDraft.lineGrammar ⟨fun _ => (), fun _ _ => .ok ()⟩ true).pass []
      { source := .ofString "a" }).columns[0]? = some column ∧
    ∃ state ∈ column.states, state.key = ⟨0, 0, 0⟩ := by
  obtain ⟨column, closed⟩ := exists_first_column
    (ready_ofGrammar GrammarDraft.build_lines ⟨fun _ => (), fun _ _ => .ok ()⟩ true)
    (fun _ _ _ _ _ _ _ => ⟨(), rfl⟩) [] { source := .ofString "a" } rfl
  refine ⟨GrammarDraft.build_lines, column, closed, ?_⟩
  refine ((pass_columns_eq_earley_sets GrammarDraft.build_lines _ _ _ _ rfl 0 column closed).1
    0 0 0).mpr ⟨_, rfl, Nat.zero_le _, Nat.le_refl _, ?_, [], ?_⟩
  · exact .refl
  · exact .refl

end Parser

end JavaFrontend
