import JavaFrontend.Proofs.Parse.Retries
import JavaFrontend.Proofs.Parse.Recognition

/-!
What the kinds that an error lists are good for. A pass that stops at a token has read the tokens
before it. Where the token was refused, one of any listed kind would have been read in its place;
where it is an end mark that was read, one of any listed kind would have been read behind it
(`Stuck.way_forward`). If every name of the grammar derives something, what was read can always be
gone on with or is a whole input, so no kind is listed only where nothing but the end was possible.
-/

namespace JavaFrontend

/-! ### Grammars in which every name derives something -/

namespace Grammar

variable {grammar : Grammar} {parts first second : List Part} {kinds : List Kind}

/-- Every name derives tokens of some kinds. -/
def Productive (grammar : Grammar) : Prop :=
  ∀ name ∈ grammar.collections.map (·.name), ∃ kinds, grammar.Generates [.rule name] kinds

/-- All names among the parts are names of rules. -/
def Defines (grammar : Grammar) (parts : List Part) : Prop :=
  ∀ name, .rule name ∈ parts → name ∈ grammar.collections.map (·.name)

/-- What the start derives ends with an end mark, and has no other one. -/
def Marked (grammar : Grammar) : Prop :=
  ∀ kinds, grammar.Generates [.rule grammar.start] kinds →
    ∃ row, kinds = row ++ [.endOfInput] ∧ .endOfInput ∉ row

theorem Productive.exists_matches (productive : grammar.Productive)
    (defined : grammar.Defines parts) : ∃ kinds, grammar.Matches parts kinds := by
  induction parts with
  | nil => exact ⟨[], .nil⟩
  | cons part parts ih =>
    obtain ⟨behind, rest⟩ := ih fun name member => defined name (List.mem_cons_of_mem part member)
    cases part with
    | token kind => exact ⟨kind :: behind, .token kind rest⟩
    | rule name =>
      obtain ⟨inner, derived⟩ := productive name (defined name List.mem_cons_self)
      exact ⟨inner ++ behind, (matches_iff_derives.mpr derived).append rest⟩

/-- Steps lead from names of rules to names of rules. -/
theorem Defines.of_derives (closed : ∀ rule ∈ grammar.rules, grammar.Defines rule.parts)
    (defined : grammar.Defines first) (derived : grammar.Derives first second) :
    grammar.Defines second := by
  induction derived with
  | refl => exact defined
  | tail _ step ih =>
    obtain ⟨before, after, known⟩ := step
    intro name member
    rcases List.mem_append.mp member with member | member
    · rcases List.mem_append.mp member with member | member
      · exact ih name (List.mem_append_left _ member)
      · exact closed _ known name member
    · exact ih name (List.mem_append_right _ (List.mem_cons_of_mem _ member))

/-- What is viable is the beginning of something that the start derives. -/
theorem Productive.completes (productive : grammar.Productive)
    (begins : grammar.Defines [.rule grammar.start])
    (closed : ∀ rule ∈ grammar.rules, grammar.Defines rule.parts) (viable : grammar.Viable kinds) :
    ∃ more, grammar.Generates [.rule grammar.start] (kinds ++ more) := by
  obtain ⟨rest, derived⟩ := viable
  have defined := begins.of_derives closed derived
  obtain ⟨more, matched⟩ := productive.exists_matches fun name member =>
    defined name (List.mem_append_right _ member)
  have completed := matched.derives_leftmost kinds []
  rw [List.append_nil, List.append_nil] at completed
  exact ⟨more, derived.trans (Derives.of_leftmost completed)⟩

/-- What begins something that the start derives is all of it, or can be gone on with. -/
theorem generates_or_viable {more : List Kind}
    (derived : grammar.Generates [.rule grammar.start] (kinds ++ more)) :
    grammar.Generates [.rule grammar.start] kinds ∨ ∃ kind, grammar.Viable (kinds ++ [kind]) := by
  cases more with
  | nil => exact .inl (List.append_nil kinds ▸ derived)
  | cons kind more =>
    rw [List.append_cons] at derived
    exact .inr ⟨kind, (Viable.of_generates derived).of_append⟩

/-- An end mark is the last of what a marked grammar generates. -/
theorem Marked.eq_nil {more : List Kind} (marked : grammar.Marked)
    (derived : grammar.Generates [.rule grammar.start] (kinds ++ [Kind.endOfInput] ++ more)) :
    more = [] := by
  obtain ⟨row, same, inside⟩ := marked _ derived
  rcases List.eq_nil_or_concat more with none | ⟨others, last, rfl⟩
  · exact none
  · rw [List.concat_eq_append, ← List.append_assoc] at same
    obtain ⟨rfl, -⟩ := List.append_inj' same rfl
    simp at inside

end Grammar

/-- All names that a grammar refers to are names of its rules. -/
theorem GrammarDraft.defines_of_build {draft : GrammarDraft} {grammar : Grammar}
    (built : draft.build = .ok grammar) : grammar.Defines [.rule grammar.start] ∧
      ∀ rule ∈ grammar.rules, grammar.Defines rule.parts := by
  obtain ⟨-, -, -, -, sound⟩ := build_cases built
  obtain ⟨begins, closed⟩ := Grammar.defined_of_fault? sound
  refine ⟨fun name member => ?_, closed⟩
  cases List.mem_singleton.mp member
  exact begins

/-! ### Where a pass stops -/

namespace Parser

variable {α : Type} {parser : Parser α} {splits : List Position} {pass : Pass α}
  {before : List Token} {token : Token} {chart : Chart α} {expected : List Kind} {tape : Tape}

/-- Whatever token of one of the kinds comes behind the chart, it is read. -/
def GoesOn (parser : Parser α) (chart : Chart α) (kinds : List Kind) : Prop :=
  ∀ token, token.kind ∈ kinds → ∃ next, parser.step chart token = .ok next

/-- How a pass stopped at the token behind the chart, and where the kinds that it lists are from. -/
inductive Stops (parser : Parser α) (pass : Pass α) (chart : Chart α) (token : Token) :
    List Kind → Prop where
  /-- The token does not fit. -/
  | refused (columns : pass.columns = chart.columns) (inside : token.kind ≠ .endOfInput)
      (failed : parser.step chart token = .error (parser.unexpected chart token)) :
    Stops parser pass chart token (parser.expected chart.last)
  /-- The input ends there, without an end mark in the grammar, too early. -/
  | unmarked (columns : pass.columns = chart.columns) (ended : token.kind = .endOfInput)
      (unasked : .endOfInput ∉ parser.expected chart.last)
      (failed : parser.accept chart token = .error (parser.unexpected chart token)) :
    Stops parser pass chart token (parser.expected chart.last)
  /-- The end mark was read, but it is not the end. -/
  | marked {next : Chart α} (columns : pass.columns = next.columns)
      (ended : token.kind = .endOfInput) (ran : parser.step chart token = .ok next)
      (failed : parser.accept next token = .error (parser.unexpected next token)) :
    Stops parser pass chart token (parser.expected next.last)

/-- The pass has read the tokens, none of which is an end mark, and stopped at the token behind
them. -/
structure Stuck (parser : Parser α) (splits : List Position) (pass : Pass α) (before : List Token)
    (token : Token) (chart : Chart α) (expected : List Kind) : Prop where
  reads : parser.Reads before chart
  inside : ∀ earlier ∈ before, earlier.kind ≠ .endOfInput
  taken : before ++ [token] <+: taken splits pass.tape
  outcome : pass.outcome = .error (.unexpected token.position token.kind expected)
  stops : parser.Stops pass chart token expected

theorem kind_of_mem_pieces {piece : Token} (inside : token.kind ≠ .endOfInput)
    (member : piece ∈ pieces splits token) : piece.kind ≠ .endOfInput := by
  unfold pieces at member
  split at member
  · obtain ⟨i, -, rfl⟩ := List.mem_map.mp member
    nofun
  · exact List.mem_singleton.mp member ▸ inside

section Total

variable (ready : parser.Ready) (total : parser.Total)
include ready total

/-- A chart goes on with what it expects. -/
theorem Reads.goesOn (reads : parser.Reads before chart) :
    parser.GoesOn chart (parser.expected chart.last) := by
  intro token listed
  rw [(reads.exact ready).mem_expected ready (reads.last ready)] at listed
  rcases reads.step_cases ready total token with ⟨-, ran⟩ | ⟨stuck, -⟩
  · exact ran
  · exact absurd listed stuck

/-- An end mark at which the input is not accepted stops the pass. -/
theorem Reads.stops_of_finish {position : Position} {found : Kind} {last : Chart α}
    (reads : parser.Reads before chart) (ended : token.kind = .endOfInput)
    (finished : parser.finish chart token = (.error (.unexpected position found expected), last)) :
    position = token.position ∧ found = token.kind ∧
      ∀ pass : Pass α, pass.columns = last.columns → parser.Stops pass chart token expected := by
  have refuses {tokens : List Token} {chart : Chart α} (reads : parser.Reads tokens chart)
      (failed : parser.accept chart token = .error (.unexpected position found expected)) :
      parser.accept chart token = .error (parser.unexpected chart token) := by
    rcases reads.accept_cases ready total token with ⟨-, root, made, -⟩ | ⟨-, refused⟩
    · rw [made] at failed
      cases failed
    · exact refused
  unfold finish at finished
  split at finished
  · next asked =>
    obtain ⟨next, stepped⟩ := reads.goesOn ready total token
      (ended ▸ List.contains_iff_mem.mp asked)
    rw [stepped] at finished
    obtain ⟨stopped, rfl⟩ := Prod.mk.inj finished
    have failed := refuses (reads.step stepped) stopped
    cases stopped.symm.trans failed
    exact ⟨rfl, rfl, fun _ columns => .marked columns ended stepped failed⟩
  · next unasked =>
    obtain ⟨stopped, rfl⟩ := Prod.mk.inj finished
    have failed := refuses reads stopped
    cases stopped.symm.trans failed
    have unlisted := mt List.contains_iff_mem.mpr unasked
    exact ⟨rfl, rfl, fun _ columns => .unmarked columns ended unlisted failed⟩

/-- A pass that goes on from what it has taken and stops at a token has read what stands before the
token. -/
theorem stuck_of_continuePass {position : Position} {found : Kind} (chart : Chart α)
    (shifts : List Position) (tape : Tape) (reads : parser.Reads (taken splits tape) chart)
    (inside : ∀ token ∈ taken splits tape, token.kind ≠ .endOfInput)
    (stopped : (parser.continuePass splits chart shifts tape).outcome =
      .error (.unexpected position found expected)) :
    ∃ before token last, parser.Stuck splits (parser.continuePass splits chart shifts tape) before
      token last expected := by
  fun_induction continuePass parser splits chart shifts tape with
  | case1 chart shifts tape inTypes reason failed =>
    obtain ⟨_, _, rfl⟩ := Tape.next_error failed
    cases stopped
  | case2 chart shifts tape inTypes token rest ran ended outcome last finished =>
    have all : taken splits rest = taken splits tape ++ [token] := by
      rw [taken_next ran, pieces_endOfInput ended]
    have here := finished.trans (congrArg (·, last) stopped)
    obtain ⟨rfl, rfl, stops⟩ := reads.stops_of_finish ready total ended here
    exact ⟨_, token, chart, reads, inside, all ▸ List.prefix_rfl, stopped, stops _ rfl⟩
  | case3 chart shifts tape inTypes token rest ran fits ambiguous noted last reason stepped =>
    obtain ⟨passed, left, split, further, ⟨none, -⟩ | ⟨refused, later, _, rfl, same, failed⟩⟩ :=
      reads.steps (pieces splits token)
    · rw [stepped] at none
      cases none
    · rw [stepped] at further same failed
      dsimp only at further failed
      cases same
      have whole : taken splits rest = taken splits tape ++ passed ++ refused :: later := by
        rw [taken_next ran, split, List.append_assoc]
      have passedOn : ∀ piece ∈ passed ++ refused :: later, piece.kind ≠ .endOfInput :=
        fun piece member => kind_of_mem_pieces fits (split ▸ member)
      obtain ⟨clean, here, -⟩ := List.forall_mem_append.mp passedOn |>.imp_right
        List.forall_mem_cons.mp
      rcases further.step_cases ready total refused with ⟨-, next, ran⟩ | ⟨-, same⟩
      · rw [ran] at failed
        cases failed
      rw [same] at failed
      cases failed
      cases stopped
      refine ⟨_, refused, last, further, List.forall_mem_append.mpr ⟨inside, clean⟩, ?_, rfl,
        .refused rfl here same⟩
      rw [whole]
      exact ⟨later, by simp⟩
  | case4 chart shifts tape inTypes token rest ran fits ambiguous noted last stepped ih =>
    obtain ⟨passed, left, split, further, ⟨-, rfl⟩ | ⟨_, _, reason, -, same, -⟩⟩ :=
      reads.steps (pieces splits token)
    · rw [List.append_nil] at split
      rw [stepped, ← split, ← taken_next ran] at further
      refine ih further ?_ stopped
      rw [taken_next ran]
      exact List.forall_mem_append.mpr ⟨inside, fun piece => kind_of_mem_pieces fits⟩
    · rw [stepped] at same
      cases same

theorem stuck_of_pass {position : Position} {found : Kind} (unread : tape.read = [])
    (stopped : (parser.pass splits tape).outcome = .error (.unexpected position found expected)) :
    ∃ before token chart,
      parser.Stuck splits (parser.pass splits tape) before token chart expected := by
  unfold pass at stopped ⊢
  cases closed : parser.close #[] parser.firstColumn with
  | error reason =>
    rw [closed] at stopped
    cases stopped
  | ok first =>
    rw [closed] at stopped
    have none : taken splits tape = [] := by rw [taken, unread]; rfl
    exact stuck_of_continuePass ready total _ [] tape (none ▸ .start closed) (by simp [none])
      stopped

/-- The kinds that are listed are good for going on: in place of the token, or behind it if it is an
end mark with which the grammar goes on. If each name derives something, then none is listed only
where the tokens before are a whole input that nothing can follow. -/
theorem Stuck.way_forward
    (completes : ∀ {kinds : List Kind}, parser.grammar.Viable kinds →
      ∃ more, parser.grammar.Generates [.rule parser.grammar.start] (kinds ++ more))
    (stuck : parser.Stuck splits pass before token chart expected) :
    let kinds := before.map (·.kind)
    (token.kind = .endOfInput → parser.grammar.Viable (kinds ++ [Kind.endOfInput]) →
      expected ≠ [] ∧ ∃ next, parser.step chart token = .ok next ∧ parser.GoesOn next expected) ∧
    (¬ (token.kind = .endOfInput ∧ parser.grammar.Viable (kinds ++ [Kind.endOfInput])) →
      parser.GoesOn chart expected ∧
      (expected = [] ↔ parser.grammar.Generates [.rule parser.grammar.start] kinds ∧
        ∀ kind, ¬ parser.grammar.Viable (kinds ++ [kind])) ∧
      (expected = [] → token.kind ≠ .endOfInput)) := by
  intro kinds
  have complete {tokens : List Token} {chart : Chart α} (reads : parser.Reads tokens chart) :
      parser.grammar.Generates [.rule parser.grammar.start] (tokens.map (·.kind)) ∨
        ∃ kind, parser.grammar.Viable (tokens.map (·.kind) ++ [kind]) :=
    Grammar.generates_or_viable (completes (reads.viable ready)).choose_spec
  have exact {tokens : List Token} {chart : Chart α} (reads : parser.Reads tokens chart)
      (kind : Kind) : kind ∈ parser.expected chart.last ↔
        parser.grammar.Viable (tokens.map (·.kind) ++ [kind]) :=
    (reads.expects ready).exact kind
  have none {tokens : List Token} {chart : Chart α} (reads : parser.Reads tokens chart) :
      parser.expected chart.last = [] ↔
        ∀ kind, ¬ parser.grammar.Viable (tokens.map (·.kind) ++ [kind]) := by
    simp only [List.eq_nil_iff_forall_not_mem, exact reads]
  -- What is not accepted is no whole input, so something can follow it.
  have some {tokens : List Token} {chart : Chart α} (reads : parser.Reads tokens chart)
      (failed : parser.accept chart token = .error (parser.unexpected chart token)) :
      parser.expected chart.last ≠ [] := by
    intro empty
    rcases reads.accept_cases ready total token with ⟨-, root, made, -⟩ | ⟨partly, -⟩
    · rw [made] at failed
      cases failed
    · rcases complete reads with derived | ⟨kind, further⟩
      · exact partly derived
      · exact (none reads).mp empty kind further
  have reads := stuck.reads
  cases stuck.stops with
  | refused _ inside failed =>
    refine ⟨fun ended => absurd ended inside, fun _ =>
      ⟨reads.goesOn ready total, ?_, fun _ => inside⟩⟩
    rw [none reads]
    refine ⟨fun stuck => ⟨?_, stuck⟩, And.right⟩
    rcases complete reads with derived | ⟨kind, further⟩
    · exact derived
    · exact absurd further (stuck kind)
  | unmarked _ ended unasked failed =>
    refine ⟨fun _ viable => absurd ((exact reads _).mpr viable) unasked, fun _ =>
      ⟨reads.goesOn ready total, ?_, fun empty => absurd empty (some reads failed)⟩⟩
    refine ⟨fun empty => absurd empty (some reads failed), fun ⟨_, stuck⟩ => (none reads).mpr stuck⟩
  | marked _ ended ran failed =>
    have further := reads.step ran
    have viable := further.viable ready
    rw [List.map_append, List.map_singleton, ended] at viable
    exact ⟨fun _ _ => ⟨some further failed, _, ran, further.goesOn ready total⟩,
      fun unmarked => absurd ⟨ended, viable⟩ unmarked⟩

/-- In a marked grammar some kind is listed, and one of any listed kind is read in place of the
token. -/
theorem Stuck.way_forward_of_marked
    (completes : ∀ {kinds : List Kind}, parser.grammar.Viable kinds →
      ∃ more, parser.grammar.Generates [.rule parser.grammar.start] (kinds ++ more))
    (marked : parser.grammar.Marked)
    (stuck : parser.Stuck splits pass before token chart expected) :
    expected ≠ [] ∧ parser.GoesOn chart expected := by
  obtain ⟨behind, instead⟩ := stuck.way_forward ready total completes
  have last : ¬ (token.kind = .endOfInput ∧
      parser.grammar.Viable (before.map (·.kind) ++ [Kind.endOfInput])) := by
    rintro ⟨ended, viable⟩
    obtain ⟨some, next, ran, goesOn⟩ := behind ended viable
    obtain ⟨kind, listed⟩ := List.exists_mem_of_ne_nil expected some
    obtain ⟨further, ranOn⟩ := goesOn { token with kind } listed
    have viable := ((stuck.reads.step ran).step ranOn).viable ready
    obtain ⟨more, derived⟩ := completes viable
    simp only [List.map_append, List.map_singleton, ended, List.append_assoc _ [kind]] at derived
    cases marked.eq_nil derived
  obtain ⟨goesOn, none, -⟩ := instead last
  refine ⟨fun empty => ?_, goesOn⟩
  obtain ⟨row, same, -⟩ := marked _ (none.mp empty).1
  have member : .endOfInput ∈ before.map (·.kind) := by simp [same]
  obtain ⟨earlier, among, ended⟩ := List.mem_map.mp member
  exact stuck.inside earlier among ended

end Total

/-! ### What a parse names -/

variable {source : TokenSource}

/-- If the parse stops at a token, it is because some pass does. -/
theorem exists_pass_of_parse {position : Position} {found : Kind}
    (failed : parser.parse source = .error (.unexpected position found expected)) :
    ∃ (earlier : List (Pass α)) (pass : Pass α) (later : List (Pass α)),
      parser.passes source = earlier ++ pass :: later ∧
      pass.outcome = .error (.unexpected position found expected) := by
  obtain ⟨earlier, later, pass, -, split, counts, -⟩ :=
    verdict_furthest (stopsAt_of_parse failed)
  exact ⟨earlier, pass, later, split, counts.symm.trans failed⟩

theorem stuck_of_passes (ready : parser.Ready) (total : parser.Total)
    {earlier later : List (Pass α)} {position : Position} {found : Kind}
    (split : parser.passes source = earlier ++ pass :: later)
    (stopped : pass.outcome = .error (.unexpected position found expected)) :
    ∃ before token chart,
      parser.Stuck (splitsAfter earlier) pass before token chart expected := by
  obtain ⟨tape, -, unread, rfl⟩ := pass_of_passes split
  exact stuck_of_pass ready total unread stopped

/-- Whenever the parse stops at a token, kinds are listed, and every pass that stopped there with
them would have read a token of one of these kinds in its place. -/
def NamesWayForward (parser : Parser α) (source : TokenSource) : Prop :=
  ∀ position found expected, parser.parse source = .error (.unexpected position found expected) →
    expected ≠ [] ∧
    ∀ earlier pass later, parser.passes source = earlier ++ pass :: later →
      pass.outcome = .error (.unexpected position found expected) →
      ∃ before token chart, parser.Stuck (splitsAfter earlier) pass before token chart expected ∧
        ∃ kind ∈ expected, parser.GoesOn chart [kind]

end Parser

/-! ### Grammars of one row -/

namespace GrammarDraft

/-- A single rule with the tokens of the kinds on its right side. -/
def row (kinds : List Kind) : GrammarDraft where
  alternatives := [⟨"Goal", kinds.map .token⟩]

def rowGrammar (kinds : List Kind) : Grammar where
  start := "Goal"
  collections := number 0 [("Goal", [kinds.map .token])]
  names := (row kinds).mentioned { productions := [("Goal", [kinds.map .token])] } "Goal"

theorem hasRows_rowGrammar (kinds : List Kind) : (rowGrammar kinds).HasRows [kinds] := rfl

theorem productive_rowGrammar (kinds : List Kind) : (rowGrammar kinds).Productive := by
  intro name member
  obtain rfl : name = "Goal" := List.mem_singleton.mp member
  exact ⟨kinds, (hasRows_rowGrammar kinds).generates_iff.mpr (List.mem_singleton_self kinds)⟩

/-- A row that ends where something may follow only an end mark. -/
theorem build_word : (row [.identifier]).build = .ok (rowGrammar [.identifier]) :=
  build_single rfl rfl rfl rfl (by decide) (by decide)

theorem build_marked : (row [.identifier, .endOfInput, .semicolon]).build =
    .ok (rowGrammar [.identifier, .endOfInput, .semicolon]) :=
  build_single rfl rfl rfl rfl (by decide) (by decide)

end GrammarDraft

namespace Parser

open GrammarDraft

section Lists

variable {α : Type} {parser : Parser α} {source : TokenList} (ready : parser.Ready)
  (total : parser.Total) (plain : source.Plain)
include ready total plain

/-- Behind viable tokens, one that does not keep them viable is refused. -/
private theorem parse_refused {before after : List Token} {token : Token}
    (split : source.significant = before ++ token :: after)
    (clean : ∀ token ∈ source.significant, token.error? = none)
    (viable : parser.grammar.Viable (before.map (·.kind)))
    (unfit : ¬ parser.grammar.Viable (before.map (·.kind) ++ [token.kind])) :
    ∃ chart, parser.Reads before chart ∧
      parser.parse (.list source) = .error (parser.unexpected chart token) := by
  obtain ⟨chart, start, run⟩ := parse_list ready total plain
  rw [split] at run clean
  obtain ⟨earlier, here, -⟩ := List.forall_mem_append.mp clean |>.imp_right List.forall_mem_cons.mp
  obtain ⟨next, reads, same⟩ := start.readOn_append ready total _ (token :: after) earlier viable
  refine ⟨next, reads, ?_⟩
  rcases reads.step_cases ready total token with ⟨fits, -⟩ | ⟨-, refused⟩
  · exact absurd fits unfit
  · rw [run, same, readOn, here]
    dsimp only
    rw [refused]

/-- Behind viable tokens that go on with the end mark, it is refused unless all is done with it. -/
private theorem parse_refused_at_mark
    (clean : ∀ token ∈ source.significant, token.error? = none)
    (viable : parser.grammar.Viable (source.significant.map (·.kind) ++ [Kind.endOfInput]))
    (partly : ¬ parser.grammar.Generates [.rule parser.grammar.start]
      (source.significant.map (·.kind) ++ [Kind.endOfInput])) :
    ∃ chart, parser.Reads (source.significant ++ [Token.endOfInput source.finish]) chart ∧
      parser.parse (.list source) =
        .error (parser.unexpected chart (.endOfInput source.finish)) := by
  obtain ⟨chart, start, run⟩ := parse_list ready total plain
  obtain ⟨next, reads, same⟩ := start.readOn_append ready total
    (.endOfInput source.finish) [] clean viable.of_append
  rw [List.append_nil, List.nil_append] at *
  have mark : (Token.endOfInput source.finish).kind = .endOfInput := rfl
  rcases reads.finish_eq ready total mark with ⟨-, last, further, ended⟩ | ⟨unfit, -⟩
  · refine ⟨last, further, ?_⟩
    rcases further.accept_cases ready total (.endOfInput source.finish) with
      ⟨derived, -⟩ | ⟨-, refused⟩
    · rw [List.map_append] at derived
      exact absurd derived partly
    · rw [run, same, readOn, ended, refused]
  · exact absurd viable unfit

end Lists

/-- A row and more: the token that is too many is refused, and no kind is listed. -/
private theorem parse_words (typeContext : Bool) :
    (genericFor (rowGrammar [.identifier]) typeContext).parse (.list (.ofTokens [
      { kind := .identifier, text := "a", position := ⟨1, 1⟩ },
      { kind := .identifier, text := "b", position := ⟨1, 3⟩ }])) =
        .error (.unexpected ⟨1, 3⟩ .identifier []) := by
  have ready := ready_genericFor build_word typeContext
  have unfit (kind : Kind) : ¬ (rowGrammar [.identifier]).Viable [.identifier, kind] := by
    rw [(hasRows_rowGrammar _).viable_iff]
    simp
  let first : Token := { kind := .identifier, text := "a", position := ⟨1, 1⟩ }
  let second : Token := { kind := .identifier, text := "b", position := ⟨1, 3⟩ }
  have plain : (TokenList.ofTokens [first, second]).Plain := TokenList.plain_ofTokens (by decide)
  have split : (TokenList.ofTokens [first, second]).significant = [first] ++ second :: [] := rfl
  obtain ⟨chart, reads, failed⟩ := parse_refused ready (total_genericFor _ typeContext) plain split
    (by decide) ((hasRows_rowGrammar [.identifier]).viable_iff.mpr (by decide)) (unfit _)
  have none : (genericFor (rowGrammar [.identifier]) typeContext).expected chart.last = [] :=
    List.eq_nil_iff_forall_not_mem.mpr fun kind listed =>
      unfit kind (((reads.expects ready).exact kind).mp listed)
  rw [failed, unexpected, none]

/-- A row with an end mark within: the end is refused, and what is listed is to stand behind it. -/
private theorem parse_within (typeContext : Bool) : ∃ expected,
    (genericFor (rowGrammar [.identifier, .endOfInput, .semicolon]) typeContext).parse
      (.list (.ofTokens [{ kind := .identifier, text := "a", position := ⟨1, 1⟩ }])) =
        .error (.unexpected ⟨1, 2⟩ .endOfInput expected) ∧
      ∀ kind, kind ∈ expected ↔ kind = .semicolon := by
  have ready := ready_genericFor build_marked typeContext
  have rows := hasRows_rowGrammar [.identifier, .endOfInput, .semicolon]
  have plain : (TokenList.ofTokens
      [{ kind := .identifier, text := "a", position := ⟨1, 1⟩ }]).Plain :=
    TokenList.plain_ofTokens (by decide)
  obtain ⟨chart, reads, failed⟩ := parse_refused_at_mark ready (total_genericFor _ typeContext)
    plain (by decide) (rows.viable_iff.mpr (by decide)) (mt rows.generates_iff.mp (by decide))
  have behind (kind : Kind) : (rowGrammar [.identifier, .endOfInput, .semicolon]).Viable
      [.identifier, .endOfInput, kind] ↔ kind = .semicolon := by
    rw [rows.viable_iff]
    simp
  exact ⟨_, failed, fun kind => ((reads.expects ready).exact kind).trans (behind kind)⟩

/-- A parse does not always name a way forward: nothing can be named behind a whole input that
nothing follows, and what is named behind an end mark does not fit in its place. -/
theorem not_names_way_forward :
    ((row [.identifier]).build = .ok (rowGrammar [.identifier]) ∧
      (rowGrammar [.identifier]).Productive ∧
      ¬ (genericFor (rowGrammar [.identifier]) true).NamesWayForward (.list (.ofTokens [
        { kind := .identifier, text := "a", position := ⟨1, 1⟩ },
        { kind := .identifier, text := "b", position := ⟨1, 3⟩ }]))) ∧
    (row [.identifier, .endOfInput, .semicolon]).build =
      .ok (rowGrammar [.identifier, .endOfInput, .semicolon]) ∧
    (rowGrammar [.identifier, .endOfInput, .semicolon]).Productive ∧
    ¬ (genericFor (rowGrammar [.identifier, .endOfInput, .semicolon]) true).NamesWayForward
      (.list (.ofTokens [{ kind := .identifier, text := "a", position := ⟨1, 1⟩ }])) := by
  refine ⟨⟨build_word, productive_rowGrammar _, fun named => ?_⟩, build_marked,
    productive_rowGrammar _, fun named => ?_⟩
  · exact (named _ _ _ (parse_words true)).1 rfl
  obtain ⟨expected, failed, listed⟩ := parse_within true
  obtain ⟨earlier, pass, later, split, outcome⟩ := exists_pass_of_parse failed
  obtain ⟨before, token, chart, stuck, kind, among, forward⟩ :=
    (named _ _ _ failed).2 earlier pass later split outcome
  obtain rfl := (listed kind).mp among
  have ready := ready_genericFor build_marked true
  -- Nothing before the end mark goes on with a semicolon.
  have unfit : ¬ (rowGrammar [.identifier, .endOfInput, .semicolon]).Viable
      (before.map (·.kind) ++ [.semicolon]) := by
    rw [(hasRows_rowGrammar _).viable_iff]
    have inside : .endOfInput ∉ before.map (·.kind) := by simpa using stuck.inside
    generalize before.map (·.kind) = kinds at inside ⊢
    rcases kinds with _ | ⟨first, _ | ⟨second, more⟩⟩
    · simp
    · simp
    · have apart : second ≠ .endOfInput := fun same => inside (by simp [same])
      simp [apart]
  obtain ⟨next, ran⟩ := forward { kind := .semicolon, text := ";", position := ⟨1, 2⟩ } (by simp)
  have viable := (stuck.reads.step ran).viable ready
  rw [List.map_append] at viable
  exact unfit viable

variable {grammar : Grammar}

/-- What is named is a way forward. If a parse stops at a token, then some pass does; and every pass
that stopped there with the same kinds has read the tokens before. If the token is the end mark and
the grammar goes on with it, some kind is listed, and one of any listed kind would have been read
behind the mark. Otherwise one of any listed kind would have been read in place of the token, and
some kind is listed unless the tokens before are a whole input that nothing can follow; then the
token is no end mark. So if all that the grammar generates ends with an end mark and has no other
one, some kind is always listed, and one of it would have been read in place of the token. -/
theorem way_forward_of_parse {draft : GrammarDraft} (built : draft.build = .ok grammar)
    (productive : grammar.Productive) (typeContext : Bool) (source : TokenSource) :
    let parser := genericFor grammar typeContext
    (∀ position found expected, parser.parse source = .error (.unexpected position found expected) →
      (∃ (earlier : List (Pass Node)) (pass : Pass Node) (later : List (Pass Node)),
        parser.passes source = earlier ++ pass :: later ∧
        pass.outcome = .error (.unexpected position found expected)) ∧
      ∀ (earlier : List (Pass Node)) (pass : Pass Node) (later : List (Pass Node)),
        parser.passes source = earlier ++ pass :: later →
        pass.outcome = .error (.unexpected position found expected) →
        ∃ before token chart,
          parser.Stuck (splitsAfter earlier) pass before token chart expected ∧
          let kinds := before.map (·.kind)
          (found = .endOfInput → grammar.Viable (kinds ++ [.endOfInput]) →
            expected ≠ [] ∧
            ∃ next, parser.step chart token = .ok next ∧ parser.GoesOn next expected) ∧
          (¬ (found = .endOfInput ∧ grammar.Viable (kinds ++ [.endOfInput])) →
            parser.GoesOn chart expected ∧
            (expected = [] ↔ grammar.Generates [.rule grammar.start] kinds ∧
              ∀ kind, ¬ grammar.Viable (kinds ++ [kind])) ∧
            (expected = [] → found ≠ .endOfInput))) ∧
    (grammar.Marked → parser.NamesWayForward source) := by
  intro parser
  have ready := ready_genericFor built typeContext
  have total := total_genericFor grammar typeContext
  obtain ⟨begins, closed⟩ := defines_of_build built
  have completes {kinds : List Kind} (viable : grammar.Viable kinds) :=
    productive.completes begins closed viable
  constructor
  · intro position found expected failed
    refine ⟨exists_pass_of_parse failed, fun earlier pass later split stopped => ?_⟩
    obtain ⟨before, token, chart, stuck⟩ := stuck_of_passes ready total split stopped
    cases stuck.outcome.symm.trans stopped
    exact ⟨before, token, chart, stuck, stuck.way_forward ready total completes⟩
  · intro marked position found expected failed
    obtain ⟨earlier, pass, later, split, stopped⟩ := exists_pass_of_parse failed
    obtain ⟨_, _, _, stuck⟩ := stuck_of_passes ready total split stopped
    have some := (stuck.way_forward_of_marked ready total completes marked).1
    refine ⟨some, fun earlier pass later split stopped => ?_⟩
    obtain ⟨before, token, chart, stuck⟩ := stuck_of_passes ready total split stopped
    obtain ⟨-, goesOn⟩ := stuck.way_forward_of_marked ready total completes marked
    obtain ⟨kind, listed⟩ := List.exists_mem_of_ne_nil expected some
    refine ⟨before, token, chart, stuck, kind, listed, fun other same => goesOn other ?_⟩
    rwa [List.mem_singleton.mp same]

/-- Behind an identifier that is a whole input, nothing is named. -/
theorem way_forward_of_words : (row [.identifier]).build = .ok (rowGrammar [.identifier]) ∧
    (rowGrammar [.identifier]).Productive ∧
    (genericFor (rowGrammar [.identifier]) true).parse (.list (.ofTokens [
      { kind := .identifier, text := "a", position := ⟨1, 1⟩ },
      { kind := .identifier, text := "b", position := ⟨1, 3⟩ }])) =
        .error (.unexpected ⟨1, 3⟩ .identifier []) ∧
    ∃ before : List Token,
      (rowGrammar [.identifier]).Generates [.rule "Goal"] (before.map (·.kind)) ∧
      ∀ kind, ¬ (rowGrammar [.identifier]).Viable (before.map (·.kind) ++ [kind]) := by
  obtain ⟨stopped, -⟩ := way_forward_of_parse build_word (productive_rowGrammar [.identifier]) true
    (.list (.ofTokens [
      { kind := .identifier, text := "a", position := ⟨1, 1⟩ },
      { kind := .identifier, text := "b", position := ⟨1, 3⟩ }]))
  obtain ⟨⟨earlier, pass, later, split, outcome⟩, all⟩ := stopped _ _ _ (parse_words true)
  obtain ⟨before, token, chart, -, -, instead⟩ := all earlier pass later split outcome
  have whole := (instead (fun ended => by cases ended.1)).2.1.mp rfl
  exact ⟨build_word, productive_rowGrammar _, parse_words true, before, whole⟩

end Parser

end JavaFrontend
