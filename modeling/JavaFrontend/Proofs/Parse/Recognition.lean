import JavaFrontend.Proofs.Parse.TokenLists
import JavaFrontend.Proofs.Reduction.GenericTree

/-!
What a parse of a list of tokens comes to. It recognises exactly what the start derives, with the
end mark if the grammar can go on with it and without it otherwise. It fails at the first token
that is none or that makes what was read no longer viable, and then names exactly the kinds that
would have kept it viable.
-/

namespace JavaFrontend

/-- The kinds are those with which the other ones stay viable, in the order of the kinds. -/
structure Grammar.Expects (grammar : Grammar) (kinds expected : List Kind) : Prop where
  ordered : expected.Pairwise fun a b => a.rank < b.rank
  exact : ∀ kind, kind ∈ expected ↔ grammar.Viable (kinds ++ [kind])

/-- Behind the first `k` tokens there is one that is none, or with which they are not viable. -/
def Grammar.Faulty (grammar : Grammar) (tokens : List Token) (k : Nat) : Prop :=
  ∃ token, tokens[k]? = some token ∧
    (token.error?.isSome ∨ ¬ grammar.Viable ((tokens.take (k + 1)).map (·.kind)))

theorem TokenList.plain_ofTokens {tokens : List Token}
    (unshifted : ∀ token ∈ (ofTokens tokens).significant, token.kind.isRightShift = false) :
    (ofTokens tokens).Plain := by
  intro token member
  exact ⟨(inside_ofTokens member).2, unshifted token member⟩

namespace Parser

variable {α : Type} {parser : Parser α} {tokens : List Token} {chart : Chart α} {grammar : Grammar}

theorem Reads.expects (ready : parser.Ready) (reads : parser.Reads tokens chart) :
    parser.grammar.Expects (tokens.map (·.kind)) (parser.expected chart.last) :=
  ⟨ChartParser.expected_pairwise_rank _ _,
    fun _ => (reads.exact ready).mem_expected ready (reads.last ready)⟩

/-! ### Recognition -/

/-- Recognition is exact. Of tokens without shifts and errors, those are parsed that the start
derives: together with the end mark if some row that it derives begins with them and the end mark,
and without it otherwise. -/
theorem parse_ok_iff_generates {draft : GrammarDraft} (built : draft.build = .ok grammar)
    (typeContext : Bool) (tokens : List Token)
    (plain : ∀ token ∈ (TokenList.ofTokens tokens).significant,
      token.kind.isRightShift = false ∧ token.error? = none) :
    let parse := (genericFor grammar typeContext).parse (.list (.ofTokens tokens))
    let kinds := (TokenList.ofTokens tokens).significant.map (·.kind)
    (grammar.Viable (kinds ++ [.endOfInput]) → ((∃ root, parse = .ok root) ↔
      grammar.Generates [.rule grammar.start] (kinds ++ [.endOfInput]))) ∧
    (¬ grammar.Viable (kinds ++ [.endOfInput]) → ((∃ root, parse = .ok root) ↔
      grammar.Generates [.rule grammar.start] kinds)) := by
  intro parse kinds
  have exactly := exists_parse_list_iff (ready_genericFor built typeContext)
    (total_genericFor grammar typeContext)
    (TokenList.plain_ofTokens fun token member => (plain token member).1)
    fun token member => (plain token member).2
  constructor
  · intro viable
    refine exactly.trans ⟨?_, fun derived => .inl ⟨viable, derived⟩⟩
    rintro (⟨-, derived⟩ | ⟨stuck, -⟩)
    · exact derived
    · exact absurd viable stuck
  · intro stuck
    refine exactly.trans ⟨?_, fun derived => .inr ⟨stuck, derived⟩⟩
    rintro (⟨viable, -⟩ | ⟨-, derived⟩)
    · exact absurd viable stuck
    · exact derived

/-- A line of two identifiers is parsed. -/
theorem parse_line_ok : GrammarDraft.lines.build = .ok GrammarDraft.lineGrammar ∧ ∃ root,
    (genericFor GrammarDraft.lineGrammar true).parse (.list (.ofTokens [
      { kind := .identifier, text := "a", position := ⟨1, 1⟩ },
      { kind := .semicolon, text := ";", position := ⟨1, 2⟩ },
      { kind := .whitespace, text := " ", position := ⟨1, 3⟩ },
      { kind := .identifier, text := "b", position := ⟨1, 4⟩ }])) = .ok root := by
  have derived := GrammarDraft.generates_line.2
  have recognised := parse_ok_iff_generates GrammarDraft.build_lines true [
    { kind := .identifier, text := "a", position := ⟨1, 1⟩ },
    { kind := .semicolon, text := ";", position := ⟨1, 2⟩ },
    { kind := .whitespace, text := " ", position := ⟨1, 3⟩ },
    { kind := .identifier, text := "b", position := ⟨1, 4⟩ }] (by decide)
  exact ⟨GrammarDraft.build_lines,
    (recognised.1 (Grammar.Viable.of_generates derived)).mpr derived⟩

/-! ### Failure -/

/-- What is refused at the end is refused at the end mark, with the kinds that keep what was read
viable. -/
private theorem refused_of_finish {finish : Token} {reason : ParseError} (ready : parser.Ready)
    (total : parser.Total) (reads : parser.Reads tokens chart)
    (ended : finish.kind = .endOfInput) (failed : (parser.finish chart finish).1 = .error reason) :
    ∃ expected, reason = .unexpected finish.position .endOfInput expected ∧
      (¬ parser.grammar.Viable (tokens.map (·.kind) ++ [Kind.endOfInput]) →
        parser.grammar.Expects (tokens.map (·.kind)) expected) ∧
      (parser.grammar.Viable (tokens.map (·.kind) ++ [Kind.endOfInput]) →
        parser.grammar.Expects (tokens.map (·.kind) ++ [Kind.endOfInput]) expected) := by
  have refuses {tokens : List Token} {chart : Chart α} (reads : parser.Reads tokens chart)
      (failed : parser.accept chart finish = .error reason) :
      ∃ expected, reason = .unexpected finish.position .endOfInput expected ∧
        parser.grammar.Expects (tokens.map (·.kind)) expected := by
    rcases reads.accept_cases ready total finish with ⟨-, root, made, -⟩ | ⟨-, refused⟩
    · rw [made] at failed
      cases failed
    · rw [refused] at failed
      cases failed
      exact ⟨_, by rw [unexpected, ended], reads.expects ready⟩
  rcases reads.finish_eq ready total ended with ⟨viable, next, further, same⟩ | ⟨stuck, same⟩
  · obtain ⟨expected, rfl, expects⟩ := refuses further (same ▸ failed)
    rw [List.map_append, List.map_singleton, ended] at expects
    exact ⟨expected, rfl, fun stuck => absurd viable stuck, fun _ => expects⟩
  · obtain ⟨expected, rfl, expects⟩ := refuses reads (same ▸ failed)
    exact ⟨expected, rfl, fun _ => expects, fun viable => absurd viable stuck⟩

/-- The tokens before the first faulty one are no errors and viable. -/
private theorem clean_before {k : Nat} (bound : k ≤ tokens.length)
    (faultless : ∀ j < k, ¬ grammar.Faulty tokens j) :
    (∀ token ∈ tokens.take k, token.error? = none) ∧
      grammar.Viable ((tokens.take k).map (·.kind)) := by
  have sound (j : Nat) (before : j < k) (token : Token) (here : tokens[j]? = some token) :
      token.error? = none ∧ grammar.Viable ((tokens.take (j + 1)).map (·.kind)) := by
    have fine := faultless j before
    unfold Grammar.Faulty at fine
    push Not at fine
    obtain ⟨clean, viable⟩ := fine token here
    exact ⟨by simpa using clean, viable⟩
  constructor
  · intro token member
    obtain ⟨j, inside, rfl⟩ := List.mem_iff_getElem.mp member
    rw [List.length_take] at inside
    rw [List.getElem_take]
    exact (sound j (by omega) _ (List.getElem?_eq_getElem (by omega))).1
  · cases k with
    | zero => exact Grammar.viable_nil
    | succ k => exact (sound k (by omega) _ (List.getElem?_eq_getElem bound)).2

/-- What is read on up to a faulty token fails there, with the error of the token or with the kinds
that would have kept the tokens before it viable. -/
private theorem readOn_faulty {token : Token} {before : List Token} (finish : Token)
    (after : List Token) (ready : parser.Ready) (total : parser.Total)
    (reads : parser.Reads [] chart)
    (clean : ∀ token ∈ before, token.error? = none)
    (viable : parser.grammar.Viable (before.map (·.kind)))
    (faulty : token.error?.isSome ∨
      ¬ parser.grammar.Viable (before.map (·.kind) ++ [token.kind])) :
    (∀ fault, token.error? = some fault →
      parser.readOn finish chart (before ++ token :: after) =
        .error (.lexical token.position fault)) ∧
    (token.error? = none → ∃ expected, parser.readOn finish chart (before ++ token :: after) =
        .error (.unexpected token.position token.kind expected) ∧
      parser.grammar.Expects (before.map (·.kind)) expected) := by
  obtain ⟨last, further, same⟩ :=
    reads.readOn_append ready total finish (token :: after) clean viable
  rw [List.nil_append] at further
  rw [same, readOn]
  constructor
  · intro fault error
    rw [error]
  · intro fine
    have stuck : ¬ parser.grammar.Viable (before.map (·.kind) ++ [token.kind]) := by
      rcases faulty with error | stuck
      · rw [fine] at error
        cases error
      · exact stuck
    rcases further.step_cases ready total token with ⟨longer, -⟩ | ⟨-, refused⟩
    · exact absurd longer stuck
    · rw [fine]
      dsimp only
      rw [refused]
      exact ⟨_, rfl, further.expects ready⟩

/-- Failure is reported at the first fault. If some significant token is an error or makes those up
to it not viable, the first such token is reported: an error as what it is, any other with exactly
the kinds that would have kept those before it viable. If there is none, whatever failure there is
is one at the end mark, with the kinds that keep the tokens viable, or the tokens and the end mark
if these are. -/
theorem parse_fails_at_first_fault {draft : GrammarDraft} (built : draft.build = .ok grammar)
    (typeContext : Bool) (tokens : List Token)
    (unshifted : ∀ token ∈ (TokenList.ofTokens tokens).significant,
      token.kind.isRightShift = false) :
    let parse := (genericFor grammar typeContext).parse (.list (.ofTokens tokens))
    let significant := (TokenList.ofTokens tokens).significant
    let kinds := significant.map (·.kind)
    (∀ k token, significant[k]? = some token → grammar.Faulty significant k →
      (∀ j < k, ¬ grammar.Faulty significant j) →
      (∀ fault, token.error? = some fault → parse = .error (.lexical token.position fault)) ∧
      (token.error? = none → ∃ expected,
        parse = .error (.unexpected token.position token.kind expected) ∧
        grammar.Expects (kinds.take k) expected)) ∧
    ((∀ k, ¬ grammar.Faulty significant k) → ∀ reason, parse = .error reason →
      ∃ expected,
        reason = .unexpected (TokenList.ofTokens tokens).finish .endOfInput expected ∧
        (¬ grammar.Viable (kinds ++ [.endOfInput]) → grammar.Expects kinds expected) ∧
        (grammar.Viable (kinds ++ [.endOfInput]) →
          grammar.Expects (kinds ++ [.endOfInput]) expected)) := by
  intro parse significant kinds
  have ready := ready_genericFor built typeContext
  have total := total_genericFor grammar typeContext
  obtain ⟨chart, start, run⟩ := parse_list ready total (TokenList.plain_ofTokens unshifted)
  constructor
  · intro k token here faulty first
    obtain ⟨inside, same⟩ := List.getElem?_eq_some_iff.mp here
    obtain ⟨clean, viable⟩ := clean_before (Nat.le_of_lt inside) first
    have split : significant = significant.take k ++ token :: significant.drop (k + 1) := by
      rw [← same, ← List.drop_eq_getElem_cons inside, List.take_append_drop]
    have stuck : token.error?.isSome ∨
        ¬ grammar.Viable ((significant.take k).map (·.kind) ++ [token.kind]) := by
      obtain ⟨other, found, fault⟩ := faulty
      rw [here] at found
      cases found
      rwa [List.take_add_one, here, Option.toList_some, List.map_append] at fault
    have failed := readOn_faulty (.endOfInput (TokenList.ofTokens tokens).finish)
      (significant.drop (k + 1)) ready total start clean viable stuck
    rw [← split, ← run, List.map_take] at failed
    exact failed
  · intro faultless reason failed
    obtain ⟨clean, viable⟩ := clean_before (Nat.le_refl significant.length) fun j _ => faultless j
    rw [List.take_length] at clean viable
    obtain ⟨last, further, same⟩ := start.readOn_append ready total
      (.endOfInput (TokenList.ofTokens tokens).finish) [] clean viable
    rw [List.append_nil, ← run] at same
    exact refused_of_finish ready total further rfl (same.symm.trans failed)

/-- A plus sign behind the first identifier of a line is where its parse fails. -/
theorem parse_line_fails : GrammarDraft.lines.build = .ok GrammarDraft.lineGrammar ∧ ∃ expected,
    (genericFor GrammarDraft.lineGrammar true).parse (.list (.ofTokens [
      { kind := .identifier, text := "a", position := ⟨1, 1⟩ },
      { kind := .plus, text := "+", position := ⟨1, 2⟩ }])) =
        .error (.unexpected ⟨1, 2⟩ .plus expected) ∧
      GrammarDraft.lineGrammar.Expects [.identifier] expected := by
  have stuck : ¬ GrammarDraft.lineGrammar.Viable ([.identifier] ++ [.plus]) := by
    intro viable
    obtain ⟨rule, known, mentioned⟩ := viable.exists_rule
    rw [← Array.mem_toList_iff, GrammarDraft.rules_lineGrammar] at known
    simp only [List.mem_cons, List.not_mem_nil, or_false] at known
    rcases known with rfl | rfl <;> simp at mentioned
  have begins : GrammarDraft.lineGrammar.Viable ([.identifier] ++ [.endOfInput]) :=
    .of_generates GrammarDraft.generates_line.1
  have located := parse_fails_at_first_fault GrammarDraft.build_lines true [
    { kind := .identifier, text := "a", position := ⟨1, 1⟩ },
    { kind := .plus, text := "+", position := ⟨1, 2⟩ }] (by decide)
  refine ⟨GrammarDraft.build_lines, (located.1 1 _ rfl ?_ ?_).2 rfl⟩
  · exact ⟨_, rfl, .inr stuck⟩
  · rintro j before ⟨token, here, fault⟩
    obtain rfl : j = 0 := by omega
    cases here
    rcases fault with error | cut
    · cases error
    · exact cut begins.of_append

end Parser

end JavaFrontend
