import JavaFrontend.Proofs.Java.Goals
import JavaFrontend.Proofs.Parse.Angles
import JavaFrontend.Proofs.Parse.Attempts

/-!
The parsers for Java on source texts. Tokens of a text are made into leaves of the sorts of their
kinds, so by the rules for its goal a parser makes something of every rule that completes in any
column of any pass: no parse of a text blames the grammar and the reductions.
-/

namespace JavaFrontend.Java

open JavaFrontend.Java.Reduction

/-! ### Leaves -/

/-- The leaf of the token is of the sort of its kind. -/
def Fitting (token : Token) : Prop := (NodeSort.ofKind token.kind).Holds (.ofToken token)

/-- Tokens of texts are made into leaves of the sorts of their kinds. -/
theorem fitting_of_sound {token : Token} (sound : token.Sound) (clean : token.error? = none) :
    Fitting token := by
  unfold Fitting NodeSort.ofKind Node.ofToken
  obtain ⟨kind, text, position, value⟩ := token
  cases sound with
  | fault reason _ same =>
    cases same
    cases clean
  | literal same =>
    cases value <;> cases same <;> exact .literal _
  | plain other same =>
    cases same
    have isSome : (LiteralValue.ofToken? ⟨kind, text, position, .none⟩).isSome = kind.isLiteral := by
      rw [Kind.isLiteral, show kind.isValueLiteral = false from other]
      cases kind <;> rfl
    by_cases identifier : kind = .identifier
    · rw [if_pos identifier, if_pos identifier]
      exact .identifier _
    · rw [if_neg identifier, if_neg identifier]
      cases found : LiteralValue.ofToken? ⟨kind, text, position, .none⟩ with
      | some value =>
        rw [if_pos (by rw [← isSome, found]; rfl)]
        exact .literal _
      | none =>
        rw [if_neg (by rw [← isSome, found]; exact Bool.false_ne_true)]
        exact .token _ rfl

variable {parser : Parser Node} {goal : Element} {grammar : JavaFrontend.Grammar}
  {expansion : Expansion}

/-! ### What is built -/

/-- The parser reads fragments for the goal, or whole source files. -/
structure Parses (goal : Element) (expansion : Expansion) (grammar : JavaFrontend.Grammar)
    (parser : Parser Node) : Prop where
  isFor : IsFor goal expansion grammar
  wellFormed : grammar.WellFormed
  made : ∃ typeContext, parser = { Parser.ofBuilder grammar (builder grammar) with typeContext }

namespace Parses

theorem ready (parses : Parses goal expansion grammar parser) : parser.Ready := by
  obtain ⟨typeContext, rfl⟩ := parses.made
  exact ⟨parses.wellFormed, rfl⟩

/-- What parts are made into is of the shapes of their names, and has the words of the tokens that
the parts stand for. -/
theorem fits_of_builds (parses : Parses goal expansion grammar parser) {parts : List Part}
    {tokens : List Token} {values : List Node} (built : parser.Builds parts tokens values)
    (fit : ∀ token ∈ tokens, Fitting token) :
    List.Forall₂ (PartFits expansion.repetitions) parts values ∧
      words values = tokens.flatMap (·.word?.toList) := by
  obtain ⟨typeContext, rfl⟩ := parses.made
  induction built with
  | nil => exact ⟨.nil, rfl⟩
  | token token _ ih =>
    obtain ⟨here, later⟩ := List.forall_mem_cons.mp fit
    obtain ⟨fits, same⟩ := ih later
    refine ⟨.cons here fits, ?_⟩
    rw [List.flatMap_cons, words_cons, same]
    exact congrArg (· ++ _) (Node.words_ofToken token)
  | @rule id rule parts inner tokens operands values value found _ made _ bodyIh restIh =>
    obtain ⟨inside, later⟩ := List.forall_mem_append.mp fit
    obtain ⟨operandsFit, sameInside⟩ := bodyIh inside
    obtain ⟨valuesFit, sameLater⟩ := restIh later
    obtain ⟨node, reduced, fits, same⟩ := parses.isFor.reduces found operandsFit
    cases made.symm.trans reduced
    refine ⟨.cons fits valuesFit, ?_⟩
    rw [words_cons, Node.words_node, same, sameInside, sameLater, List.flatMap_append]

/-- Something is made of every rule that was built from tokens of texts. -/
theorem total (parses : Parses goal expansion grammar parser) : parser.TotalOn Fitting := by
  intro id rule tokens operands found fit built
  obtain ⟨operandsFit, -⟩ := parses.fits_of_builds built fit
  obtain ⟨typeContext, rfl⟩ := parses.made
  obtain ⟨node, reduced, -⟩ := parses.isFor.reduces found operandsFit
  exact ⟨node, reduced⟩

end Parses

/-! ### The parsers for Java -/

/-- The parser for whole source files, or one for fragments. -/
inductive IsParser (parser : Parser Node) : Prop where
  | unit (made : unitParser = .ok parser)
  | fragment (goal : String) (made : fragmentParser goal = .ok parser)

theorem parses_of_build (isGoal : Grammar.IsGoal goal)
    (built : (Grammar.withGoal goal).build = .ok grammar) (typeContext : Bool) :
    ∃ expansion, Parses goal expansion grammar
      { Parser.ofBuilder grammar (builder grammar) with typeContext } := by
  obtain ⟨expansion, isFor⟩ := isFor_of_build isGoal built
  exact ⟨expansion, isFor, GrammarDraft.well_formed_of_build built, typeContext, rfl⟩

theorem IsParser.parses (isParser : IsParser parser) (typeContext : Bool) :
    ∃ goal expansion grammar, Parses goal expansion grammar { parser with typeContext } := by
  cases isParser with
  | unit made =>
    unfold unitParser at made
    cases built : Grammar.forUnits with
    | error reason =>
      rw [built] at made
      cases made
    | ok grammar =>
      rw [built] at made
      cases made
      obtain ⟨expansion, parses⟩ := parses_of_build .units built typeContext
      exact ⟨_, expansion, grammar, parses⟩
  | fragment goal made =>
    unfold fragmentParser at made
    cases built : Grammar.forGoal goal with
    | error reason =>
      rw [built] at made
      cases made
    | ok grammar =>
      rw [built] at made
      cases made
      obtain ⟨expansion, parses⟩ := parses_of_build (.fragment goal) built typeContext
      exact ⟨_, expansion, grammar, parses⟩

/-- Tokens to come of a text are no errors if none of them is of the kind for those. -/
theorem fitting_of_pending {source : String} {token : Token}
    (member : token ∈ (Lexer.ofString source).pending) (valid : token.kind ≠ .invalid) :
    token.error? = none ∧ Fitting token := by
  have sound := (Lexer.ofString source).sound_of_tokens token (List.mem_filter.mp member).1
  have clean := sound.error?_eq_none valid
  exact ⟨clean, fitting_of_sound sound clean⟩

theorem fitting_endOfInput (place : Position) : Fitting (.endOfInput place) :=
  fitting_of_sound (.plain rfl rfl) rfl

/-- A text whose tokens the grammar generates is parsed as these, told where type arguments may
close or not, as long as a shift can come wherever a token begins with `>` and goes on. -/
theorem Parses.parse_of_generates (parses : Parses goal expansion grammar parser) {source : String}
    {tokens : List Token} {place : Position}
    (waiting : (Lexer.ofString source).pending = tokens ++ [Token.endOfInput place])
    (plain : ∀ token ∈ tokens, token.kind ≠ .endOfInput ∧ token.kind ≠ .invalid)
    (derived : grammar.Generates [.rule grammar.start] (tokens.map (·.kind) ++ [Kind.endOfInput]))
    (shifts : ∀ first (token : Token) rest, tokens = first ++ token :: rest → token.isJoined →
      grammar.Viable (first.map (·.kind) ++ [Kind.rightShift])) :
    ∃ root passed, parser.parse (.ofString source) = .ok root ∧ passed <+: [.endOfInput place] ∧
      parser.Builds [.rule grammar.start] (tokens ++ passed) [root] := by
  have clean (token : Token) (member : token ∈ tokens) : token.error? = none ∧ Fitting token := by
    have waits : token ∈ (Lexer.ofString source).pending := by simp [waiting, member]
    exact fitting_of_pending waits (plain token member).2
  have same : parser.grammar = grammar := by
    obtain ⟨_, rfl⟩ := parses.made
    rfl
  subst same
  exact Parser.parse_of_whole parses.ready parses.total waiting
    (fun token member => ⟨(plain token member).1, (clean token member).1⟩)
    (fun token member => (clean token member).2) (fitting_endOfInput place)
    (.inl ⟨Grammar.Viable.of_generates derived, derived⟩) shifts

theorem fitting_of_taken {source : String} {splits : List Position} {tape : Tape}
    (drawn : tape.Drawn (.ofString source)) :
    ∀ token ∈ Parser.taken splits tape, Fitting token := by
  intro token member
  rcases Parser.mem_taken drawn member with ⟨delivered, clean⟩ | ⟨kind, value⟩
  · exact fitting_of_sound (TokenSource.sound_of_delivers_text delivered) clean
  · exact fitting_of_sound (.plain (by rw [kind]; rfl) value) (by rw [Token.error?, value])

/-- The grammar and the reductions never disagree. Whatever the source text, no pass of a parser for
Java blames them, and something is made of every rule that completes in any column of any pass. -/
theorem reductions_never_fail (isParser : IsParser parser) (typeContext : Bool) (source : String) :
    let parser : Parser Node := { parser with typeContext }
    (∀ reason, parser.parse (.ofString source) ≠ .error (.internal reason)) ∧
    ∀ pass ∈ parser.passes (.ofString source),
      (∀ reason, pass.outcome ≠ .error (.internal reason)) ∧
      ∀ column ∈ pass.columns, ∀ state ∈ column.states, state.isCompleted parser.grammar →
        ∃ node, parser.interpretation.reduce state.rule state.matched = .ok node := by
  intro parser
  obtain ⟨goal, expansion, grammar, parses⟩ := isParser.parses typeContext
  have everywhere (pass : Pass Node) (member : pass ∈ parser.passes (.ofString source)) :
      (∀ reason, pass.outcome ≠ .error (.internal reason)) ∧
      ∀ column ∈ pass.columns, ∀ state ∈ column.states, state.isCompleted parser.grammar →
        ∃ node, parser.interpretation.reduce state.rule state.matched = .ok node := by
    obtain ⟨earlier, later, split⟩ := List.append_of_mem member
    obtain ⟨tape, drawn, unread, rfl⟩ := Parser.pass_of_passes split
    have fit : ∀ token ∈ Parser.taken (Parser.splitsAfter earlier)
        (parser.pass (Parser.splitsAfter earlier) tape).tape, Fitting token :=
      fitting_of_taken drawn.pass
    exact ⟨(Parser.outcome_of_pass parses.ready parses.total unread fit).1,
      fun column closed state member completed =>
        Parser.reduces_of_pass parses.ready parses.total unread fit closed member completed⟩
  refine ⟨fun reason parsed => ?_, everywhere⟩
  obtain ⟨earlier, pass, passes, outcome⟩ := Parser.outcome_of_parse parsed (by simp)
  exact (everywhere pass (by simp [passes])).1 reason outcome

/-- There is a parser for source files, and it does not blame the reductions for an import. -/
theorem reductions_of_import : ∃ parser : Parser Node, IsParser parser ∧
    ∀ reason, ({ parser with typeContext := true } : Parser Node).parse (.ofString "import a.b;") ≠
      .error (.internal reason) := by
  obtain ⟨grammar, built⟩ := Grammar.exists_build .units (by decide)
  have made : unitParser = .ok (.ofBuilder grammar (builder grammar)) := by
    rw [unitParser, Grammar.forUnits, built]
    rfl
  exact ⟨_, .unit made, (reductions_never_fail (.unit made) true "import a.b;").1⟩

end JavaFrontend.Java
