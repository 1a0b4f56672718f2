import JavaFrontend.Proofs.Chart.Rounds
import JavaFrontend.Proofs.Parse.Attempts
import JavaFrontend.Proofs.Reduction.GenericTree

/-!
The closings of a parse. Whatever tokens are read, with whatever rules and whatever these are made
into, the closing of each column ends, and has gone through every state of the column once unless
something could not be made (`closings_end`). No state can come in that has no key among the rules,
the places in them and the columns so far; so neither rules that lead back to themselves nor inputs
with infinitely many derivations keep a closing going.
-/

namespace JavaFrontend

namespace Parser

variable {α : Type} {parser : Parser α} {tokens : List Token} {chart : Chart α} {token : Token}
  {earlier : Array (Column α)} {column closed : Column α} {reason : ReduceError} {k : Nat}

/-! ### What is closed -/

/-- A column is to be closed behind those that are closed: the first one, or the one to which a
token leads from a chart. -/
inductive Opens (parser : Parser α) : Array (Column α) → Column α → Prop where
  | first : Opens parser #[] parser.firstColumn
  | behind {tokens : List Token} {chart : Chart α} (reads : parser.Reads tokens chart)
      (token : Token) : Opens parser chart.columns (parser.scan chart.last token)

/-- The states of a column that is to be closed fit it, and whatever they bring in does. -/
theorem Opens.kept (ready : parser.Ready) (opens : parser.Opens earlier column) :
    column.index = earlier.size ∧ ∃ Q : State α → Prop, parser.Kept Q column ∧
      parser.Sustains earlier column.index Q ∧
      ∀ state, Q state → parser.Fits column.index state := by
  cases opens with
  | first =>
    have index : parser.firstColumn.index = 0 := ChartParser.index_firstColumn
    exact ⟨index, _, ChartParser.kept_firstColumn ready, ChartParser.sustains_first ready,
      fun _ just => index ▸ just.fits⟩
  | @behind tokens chart reads token =>
    have exact := reads.exact ready
    have index := exact.index_scan token (reads.last ready)
    rw [index]
    exact ⟨exact.size.symm, _, exact.kept_scan token (reads.last ready),
      exact.sustains token ready, fun _ just => just.fits⟩

theorem Reads.closed_last (reads : parser.Reads tokens chart) : ∃ column,
    parser.Opens chart.earlier column ∧ parser.close chart.earlier column = .ok chart.last := by
  cases reads with
  | start closed => exact ⟨_, .first, closed⟩
  | step before ran =>
    obtain ⟨-, closed, same⟩ := step_ok ran
    rw [same]
    exact ⟨_, .behind before _, closed⟩

/-- Each column of a chart was closed behind those before it. -/
theorem Reads.closed_columns (reads : parser.Reads tokens chart)
    (found : chart.columns[k]? = some closed) : ∃ column,
      parser.Opens (chart.columns.take k) column ∧
      parser.close (chart.columns.take k) column = .ok closed := by
  induction reads with
  | @start first ran =>
    obtain ⟨inside, same⟩ := Array.getElem?_eq_some_iff.mp found
    obtain rfl : k = 0 := Nat.lt_one_iff.mp inside
    cases same
    exact ⟨_, .first, ran⟩
  | @step tokens chart next token before ran ih =>
    obtain ⟨-, closing, earlier⟩ := step_ok ran
    rw [Chart.columns, earlier] at found ⊢
    obtain ⟨inside, -⟩ := Array.getElem?_eq_some_iff.mp found
    rw [Array.size_push] at inside
    rw [Array.take_eq_extract, Array.extract_push_of_le (Nat.le_of_lt_succ inside)]
    rw [Array.getElem?_push] at found
    split at found
    · next here =>
      cases found
      rw [here, Array.extract_size]
      exact ⟨_, .behind before token, closing⟩
    · exact ih found

/-- What completes in a closed column could be made into something. -/
theorem Reads.made (ready : parser.Ready) (reads : parser.Reads tokens chart) {state : State α}
    (member : state ∈ chart.last.states) (completed : state.next? parser.grammar = none) :
    ∃ found, parser.interpretation.reduce state.rule state.matched = .ok found := by
  obtain ⟨column, opens, closed⟩ := reads.closed_last
  obtain ⟨-, Q, kept, sustained, fit⟩ := opens.kept ready
  obtain ⟨last, reached, -, outcome, whole⟩ := ChartParser.rounds_end kept sustained fit
  obtain ⟨running, same⟩ := Agenda.outcome_eq_ok_iff.mp (outcome.symm.trans closed)
  refine ChartParser.made_of_reaches reached running state ?_
  rw [(ChartParser.covers_of_reaches kept sustained reached).reduced, whole running,
    List.mem_filter]
  exact ⟨same ▸ member, by rw [State.isCompleted, completed]; rfl⟩

theorem step_internal (failed : parser.step chart token = .error (.internal reason)) :
    parser.close chart.columns (parser.scan chart.last token) = .error reason := by
  unfold step at failed
  dsimp only at failed
  split at failed
  · cases failed
  · split at failed
    · cases failed
    · rename_i refused
      cases failed
      exact refused

/-- A pass that ends with something that could not be made ends while a column is closed. -/
theorem closing_of_internal (ready : parser.Ready) {splits : List Position} {tape : Tape}
    (unread : tape.read = [])
    (failed : (parser.pass splits tape).outcome = .error (.internal reason)) : ∃ column,
      parser.Opens (parser.pass splits tape).columns column ∧
      parser.close (parser.pass splits tape).columns column = .error reason := by
  obtain ⟨other, refused, same⟩ | ⟨tokens, chart, came⟩ := parser.pass_cases splits tape unread
  · rw [same] at failed ⊢
    cases failed
    exact ⟨_, .first, refused⟩
  · rw [came.columns]
    have ends := came.ends
    rw [failed] at ends
    generalize outcome : (Except.error (ParseError.internal reason) : Except ParseError α) = ended
      at ends
    cases ends with
    | lexical => cases outcome
    | @stopped token _ _ refused =>
      cases outcome
      exact ⟨_, .behind came.reads token, step_internal refused⟩
    | accepted token =>
      -- What is accepted was made when the last column was closed.
      unfold accept at outcome
      split at outcome
      · cases outcome
      · rename_i state accepted
        obtain ⟨member, completed, -⟩ := ChartParser.accepted?_eq_some accepted
        obtain ⟨found, made⟩ := came.reads.made ready member completed
        rw [made] at outcome
        cases outcome

/-! ### Every closing ends -/

/-- Closing a column ends. Some end is reached, at which no further round is possible; whatever was
done so far leads there, and the parser comes to the same. With `k` columns before it there are no
more rounds than `k + 1` times the number of dotted rules, a state being gone through in each. It is
asked once for each completed state what its rule is made into, and so at most once for a rule and an
origin. Unless there is no answer, every state of the column was gone through in the end, and none
twice. All columns of a parse come about by such closings, and so does every failure to make
something. -/
theorem closings_end {draft : GrammarDraft} {grammar : Grammar} (built : draft.build = .ok grammar)
    (interpretation : Interpretation α) (typeContext : Bool) :
    let parser := ofGrammar grammar interpretation typeContext
    (∀ earlier column, parser.Opens earlier column → column.index = earlier.size ∧
      ∃ last, parser.Reaches earlier column last ∧ (∀ next, ¬ parser.Round earlier last next) ∧
        parser.close earlier column = last.outcome ∧
        (last.failure = none → last.visited = last.column.states ∧
          (last.visited.map State.key).Nodup) ∧
        ∀ agenda, parser.Reaches earlier column agenda →
          Relation.ReflTransGen (parser.Round earlier) agenda last ∧
          agenda.visited.length ≤ (earlier.size + 1) *
            (grammar.rules.toList.map fun rule => rule.size + 1).sum ∧
          agenda.reduced = agenda.visited.filter (·.isCompleted grammar) ∧
          (agenda.reduced.map fun state => (state.rule, state.origin)).Nodup) ∧
    ∀ source, ∀ pass ∈ parser.passes source,
      (∀ k closed, pass.columns[k]? = some closed → ∃ column,
        parser.Opens (pass.columns.take k) column ∧
        parser.close (pass.columns.take k) column = .ok closed) ∧
      ∀ reason, pass.outcome = .error (.internal reason) → ∃ column,
        parser.Opens pass.columns column ∧ parser.close pass.columns column = .error reason := by
  intro parser
  have ready : parser.Ready := ready_ofGrammar built interpretation typeContext
  constructor
  · intro earlier column opens
    obtain ⟨index, Q, kept, sustained, fit⟩ := opens.kept ready
    obtain ⟨last, reached, ended, outcome, whole⟩ := ChartParser.rounds_end kept sustained fit
    have covers {agenda : Agenda α} (reached : parser.Reaches earlier column agenda) :
        parser.Covers earlier Q column agenda := ChartParser.covers_of_reaches kept sustained reached
    refine ⟨index, last, reached, ChartParser.current?_eq_none_iff_stuck.mp ended, outcome,
      fun running => ⟨whole running, (covers reached).nodup_visited⟩, fun agenda came => ?_⟩
    refine ⟨ChartParser.leads_to_last came reached ended, ?_, (covers came).reduced,
      (covers came).nodup_reduced fit⟩
    have bound := (covers came).length_le fit
    rwa [ChartParser.capacity, index, ChartParser.dottedRules_eq] at bound
  · intro source pass member
    obtain ⟨before, after, split⟩ := List.append_of_mem member
    obtain ⟨tape, -, unread, rfl⟩ := pass_of_passes split
    refine ⟨fun k closed found => ?_, fun reason => closing_of_internal ready unread⟩
    obtain ⟨reason, -, same⟩ | ⟨tokens, chart, came⟩ := parser.pass_cases _ tape unread
    · rw [same] at found
      simp at found
    · rw [came.columns] at found ⊢
      exact came.reads.closed_columns found

end Parser

/-! ### A rule that leads back to itself -/

namespace GrammarDraft

/-- Names of which each may stand for itself, so that every row of identifiers has infinitely many
derivations. -/
def cyclic : GrammarDraft where
  alternatives := [
    ⟨"Name", [.rule "Name"]⟩,
    ⟨"Name", [.rule "Name", .rule "Name"]⟩,
    ⟨"Name", [.token .identifier]⟩]

def cyclicProductions : List (String × List Production) :=
  [("Name", [[.rule "Name"], [.rule "Name", .rule "Name"], [.token .identifier]])]

def cyclicGrammar : Grammar where
  start := "Name"
  collections := number 0 cyclicProductions
  names := cyclic.mentioned { productions := cyclicProductions } "Name"

theorem build_cyclic : cyclic.build = .ok cyclicGrammar :=
  build_single rfl rfl rfl rfl (by decide) (by decide)

end GrammarDraft

namespace Parser

open GrammarDraft

/-- Behind an identifier, the rule that leads back to itself is made into something once, and all is
over after at most fourteen rounds. -/
theorem closing_of_cyclic : cyclic.build = .ok cyclicGrammar ∧ ∃ earlier column last,
    (genericFor cyclicGrammar true).Opens earlier column ∧ earlier.size = 1 ∧
    (genericFor cyclicGrammar true).Reaches earlier column last ∧
    last.failure = none ∧ last.visited = last.column.states ∧ last.visited.length ≤ 14 ∧
    (last.reduced.map fun state => (state.rule, state.origin)).count (0, 0) = 1 := by
  have ready := ready_genericFor build_cyclic true
  have total := total_genericFor cyclicGrammar true
  let word : Token := { kind := .identifier, text := "a", position := ⟨1, 1⟩ }
  obtain ⟨first, closed⟩ := ChartParser.close_first_succeeds ready total
  have start := Reads.start closed
  have exact := start.exact ready
  obtain ⟨next, closing⟩ : ∃ next, (genericFor cyclicGrammar true).close #[first]
      ((genericFor cyclicGrammar true).scan first word) = .ok next :=
    exact.close_succeeds ready total (start.last ready) (by simp) trivial
  have opens := Opens.behind start word
  obtain ⟨-, last, reached, -, outcome, whole, all⟩ :=
    (closings_end build_cyclic (TreeBuilder.generic cyclicGrammar).interpretation true).1 _ _ opens
  obtain ⟨-, bound, reduced, once⟩ := all last reached
  obtain ⟨running, rfl⟩ := Agenda.outcome_eq_ok_iff.mp (outcome.symm.trans closing)
  refine ⟨build_cyclic, _, _, last, opens, rfl, reached, running, (whole running).1, bound, ?_⟩
  -- A name derives itself from the identifier, so the completed rule is in the column.
  have present : last.column.contains ⟨0, 1, 0⟩ := by
    refine (ChartParser.contains_iff_derives ready (exact.push ready (start.last ready) closing)
      Array.getElem?_push_size).mpr
        ⟨⟨"Name", [.rule "Name"]⟩, rfl, Nat.le_refl 1, Nat.zero_le _, ?_, .here⟩
    have single : cyclicGrammar.rule? 2 = some ⟨"Name", [.token .identifier]⟩ := rfl
    exact .rule (Grammar.rule?_mem single) (.token .identifier .nil) .nil
  obtain ⟨state, member, key⟩ := Column.contains_iff.mp present
  obtain ⟨rule, dot, origin⟩ := StateKey.mk.inj key
  refine List.count_eq_one_of_mem once (List.mem_map.mpr ⟨state, ?_, by rw [rule, origin]⟩)
  rw [reduced, (whole running).1, List.mem_filter]
  refine ⟨member, ?_⟩
  rw [State.isCompleted, State.next?, rule, dot]
  rfl

end Parser

end JavaFrontend
