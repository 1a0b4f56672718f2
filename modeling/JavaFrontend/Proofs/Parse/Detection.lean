import JavaFrontend.Proofs.Parse.SplitSearch
import JavaFrontend.Proofs.Parse.TypeContext

/-!
What finding out where type arguments may close does to a parse. A text that is parsed without it is
parsed with it as long as nothing is cut but shifts each `>` of which can only close. Otherwise a
shift may be cut behind its first `>` alone, and then the rest of it is a shift of its own, which may
be split too late.
-/

namespace JavaFrontend

variable {α : Type}

namespace Parser

variable {parser : Parser α} {source : String} {tokens : List Token} {place : Position}

/-- A text that is not accepted until the last shift that may be at fault is split is parsed by the
second pass over it. -/
theorem parse_of_split (ready : parser.Ready) (total : parser.Total)
    (untold : parser.typeContext = false)
    (waiting : (Lexer.ofString source).pending = tokens ++ [Token.endOfInput place])
    (inside : ∀ token ∈ tokens, token.kind ≠ .endOfInput)
    (spelled : ∀ token ∈ tokens, token.Spelled) (clean : ∀ token ∈ tokens, token.error? = none)
    (rejected : ¬ parser.grammar.Accepts (tokens.map (·.kind)))
    {before after : List Token} {token : Token} (split : tokens = before ++ token :: after)
    (ambiguous : parser.grammar.Ambiguous [] before token)
    (last : parser.grammar.Unambiguous [] (before ++ [token]) after)
    (accepted : parser.grammar.Accepts ((splitAt [token.position] tokens).map (·.kind))) :
    ∃ root, parser.parse (.ofString source) = .ok root := by
  obtain ⟨column, closed⟩ := ChartParser.close_first_succeeds ready total
  have start : parser.Reads [] ⟨#[], column⟩ := .start closed
  obtain ⟨stop, kind, expected, shifts, stops⟩ := start.readSplit_of_latest ready total spelled clean
    place (by rwa [splitAt_nil]) split ambiguous last
  obtain ⟨root, made⟩ :=
    (start.exists_readSplit_iff ready total spelled clean place).mpr accepted
  obtain ⟨first, others, passes⟩ : ∃ first others,
      parser.passes (.ofString source) = [] ++ first :: others := ⟨_, _, rfl⟩
  have reads := parser.pass_of_untold ready untold closed waiting inside passes
  rw [show splitsAfter ([] : List (Pass α)) = [] from rfl, stops] at reads
  obtain ⟨outcome, noted⟩ := Prod.mk.inj reads
  have retry := retry_of_stops outcome noted
  cases others with
  | nil =>
    rcases final_of_last passes with none | all
    · rw [retry] at none
      cases none
    · have empty : (Lexer.ofString source).text = [] := List.eq_nil_of_length_eq_zero all.symm
      have length := congrArg List.length waiting
      rw [Lexer.pending_end empty, split] at length
      simp at length
      omega
  | cons second others =>
    have further : parser.passes (.ofString source) = [first] ++ second :: others := passes
    have reads := parser.pass_of_untold ready untold closed waiting inside further
    rw [splitsAfter_cons retry, show splitsAfter ([] : List (Pass α)) = [] from rfl,
      List.nil_append] at reads
    have outcome : second.outcome = .ok root := (congrArg Prod.fst reads).trans made
    obtain rfl : others = [] := by
      by_contra more
      obtain ⟨position, again⟩ := retry_of_further further more
      obtain ⟨position, kind, expected, stops⟩ := Pass.stopsAt_of_retry again
      rw [outcome] at stops
      cases stops
    exact ⟨root, parse_of_made further outcome⟩

end Parser

/-! ### Shifts that are cut -/

namespace GrammarDraft

/-- Rows of single `>` and shifts. -/
def angleRows : List (List Kind) := [
  [.less, .greater, .greater],
  [.greater, .greater, .greater, .rightShift],
  [.greater, .rightShift, .rightShift, .comma],
  [.greater, .rightShift, .greater, .semicolon]]

def angles : GrammarDraft where
  alternatives := angleRows.map fun kinds => ⟨"Goal", kinds.map .token⟩

def angleProductions : List (String × List Production) :=
  [("Goal", angleRows.map fun kinds => kinds.map .token)]

def angleGrammar : Grammar where
  start := "Goal"
  collections := number 0 angleProductions
  names := angles.mentioned { productions := angleProductions } "Goal"

theorem build_angles : angles.build = .ok angleGrammar :=
  build_single rfl rfl rfl rfl (by decide) (by decide)

theorem hasRows_angleGrammar : angleGrammar.HasRows angleRows := rfl

theorem accepts_angles {kinds : List Kind} : angleGrammar.Accepts kinds ↔ kinds ∈ angleRows :=
  hasRows_angleGrammar.accepts_iff (by decide)

theorem closes_angles {kinds : List Kind} : angleGrammar.Closes kinds ↔
    (∃ row ∈ angleRows, kinds ++ [Kind.greater] <+: row) ∧
      ¬ ∃ row ∈ angleRows, kinds ++ [Kind.rightShift] <+: row := by
  simp [Grammar.Closes, hasRows_angleGrammar.viable_iff]

/-- A shift behind a `<`, as it is read without being cut. -/
def closingTokens : List Token := [
  { kind := .less, text := "<", position := ⟨1, 1⟩ },
  { kind := .rightShift, text := ">>", position := ⟨1, 2⟩ }]

theorem pending_closing :
    (Lexer.ofString "<>>").pending = closingTokens ++ [Token.endOfInput ⟨1, 4⟩] := by
  decide +kernel

end GrammarDraft

namespace Parser

end Parser

namespace GrammarDraft

/-- A long shift and a short one. -/
def shiftedTokens : List Token := [
  { kind := .unsignedShift, text := ">>>", position := ⟨1, 1⟩ },
  { kind := .rightShift, text := ">>", position := ⟨1, 5⟩ }]

/-- The same with the long shift cut behind its first `>`. -/
def cutTokens : List Token := [
  { kind := .greater, text := ">", position := ⟨1, 1⟩ },
  { kind := .rightShift, text := ">>", position := ⟨1, 2⟩ },
  { kind := .rightShift, text := ">>", position := ⟨1, 5⟩ }]

theorem pending_shifted :
    (Lexer.ofString ">>> >>").pending = shiftedTokens ++ [Token.endOfInput ⟨1, 7⟩] := by
  decide +kernel

theorem pending_cut :
    Lexer.pending ⟨['>', '>', ' ', '>', '>'], ⟨1, 2⟩, false⟩ =
      cutTokens.tail ++ [Token.endOfInput ⟨1, 7⟩] := by
  decide +kernel

/-- Splitting the last shift of the cut ones is of no avail. -/
theorem not_accepts_cut {places : List Position} (last : ⟨1, 5⟩ ∈ places ∨ places = []) :
    ¬ angleGrammar.Accepts ((splitAt places cutTokens).map (·.kind)) := by
  rw [accepts_angles]
  rcases last with last | rfl
  · by_cases first : ⟨1, 2⟩ ∈ places <;>
      simp [splitAt, cutTokens, first, last, Token.unjoined, Token.angle, angleRows]
  · decide

/-- None of the cut ones stands where only a single `>` can come. -/
theorem not_cuts_cut {places : List Position} {before after : List Token} {token : Token}
    (split : cutTokens = before ++ token :: after) : ¬ angleGrammar.Cuts places before token := by
  rintro ⟨joined, -, closes⟩
  rw [Parser.flatMap_pieces, closes_angles] at closes
  · revert closes
    rcases before with _ | ⟨_, _ | ⟨_, _ | ⟨_, before⟩⟩⟩
    · cases split
      cases joined
    · cases split
      have kinds : (splitAt places (cutTokens.take 1)).map (·.kind) = [.greater] := by
        simp [splitAt, cutTokens, Token.unjoined]
      rw [show [_] = cutTokens.take 1 from rfl, kinds]
      decide
    · cases split
      have kinds : (splitAt places (cutTokens.take 2)).map (·.kind) =
          if ⟨1, 2⟩ ∈ places then [.greater, .greater, .greater] else [.greater, .rightShift] := by
        by_cases first : ⟨1, 2⟩ ∈ places <;>
          simp [splitAt, cutTokens, first, Token.unjoined, Token.angle]
      rw [show [_, _] = cutTokens.take 2 from rfl, kinds]
      split <;> decide
    · simp [cutTokens] at split
  · intro other member
    have among : other ∈ cutTokens := split ▸ List.mem_append_left _ member
    exact (show ∀ other ∈ cutTokens, other.Spelled by decide) other among

end GrammarDraft

namespace Parser

/-- The parser for the grammar of shifts that tells the lexer where type arguments may close. -/
private abbrev angleParser : Parser Node := genericFor GrammarDraft.angleGrammar true

private theorem ready_angleParser : angleParser.Ready :=
  ready_genericFor GrammarDraft.build_angles true

private theorem total_angleParser : angleParser.Total :=
  total_genericFor GrammarDraft.angleGrammar true

variable {column : Column Node}

/-- The first pass over the text cuts the long shift behind its first `>`, and reads on from there
as if the text were the cut one. -/
private theorem first_pass_of_shifted
    (closed : angleParser.close #[] angleParser.firstColumn = .ok column) :
    let pass := angleParser.pass [] { source := .ofString ">>> >>" }
    (pass.outcome, pass.shifts) =
        angleParser.readSplit [] (.endOfInput ⟨1, 7⟩) ⟨#[], column⟩ [] GrammarDraft.cutTokens ∧
      ∀ position ∈ pass.shifts, angleParser.Poised [position] [position] pass.tape.rewind
        (GrammarDraft.cutTokens ++ [Token.endOfInput ⟨1, 7⟩]) := by
  have start : angleParser.Reads [] ⟨#[], column⟩ := .start closed
  have next : ((TokenSource.ofString ">>> >>").setInTypes true).nextSignificant =
      ({ kind := .greater, text := ">", position := ⟨1, 1⟩ },
        .text ⟨['>', '>', ' ', '>', '>'], ⟨1, 2⟩, true⟩) :=
    TokenSource.nextSignificant_greater ⟨1, 1⟩ _
  obtain ⟨chart, stepped, reads, same⟩ := continuePass_closing ready_angleParser
    total_angleParser rfl [] [] [] start (GrammarDraft.closes_angles.mpr (by decide)) next
  have through : angleParser.readThrough [] ⟨#[], column⟩ [] (GrammarDraft.cutTokens.take 1) =
      some (chart, []) := by
    have alone : pieces [] { kind := .greater, text := ">", position := ⟨1, 1⟩ } =
      [{ kind := .greater, text := ">", position := ⟨1, 1⟩ }] := rfl
    simp only [GrammarDraft.cutTokens, List.take_succ_cons, List.take_zero, readThrough, alone,
      steps, stepped]
    rfl
  have along : angleParser.Along [] [] [] ⟨#[], column⟩ chart []
      ⟨GrammarDraft.cutTokens.take 1, [], .text ⟨['>', '>', ' ', '>', '>'], ⟨1, 2⟩, true⟩⟩
      (GrammarDraft.cutTokens.take 1) []
      (GrammarDraft.cutTokens.tail ++ [Token.endOfInput ⟨1, 7⟩]) :=
    { lags := ⟨rfl, rfl, by decide, .inr ⟨⟨['>', '>', ' ', '>', '>'], ⟨1, 2⟩, false⟩, true, rfl,
        (Bool.noConfusion ·), rfl, GrammarDraft.pending_cut⟩⟩
      same := by simp
      through
      reads
      splitRead := by simp
      notedRead := by simp }
  obtain ⟨_, rfl, comes⟩ := along.comesTo ready_angleParser (by decide) (by decide)
    (· = []) (fun _ _ _ _ _ _ _ _ => total_angleParser)
    (fun _ _ _ _ _ _ split cuts => absurd cuts (GrammarDraft.not_cuts_cut split))
    (fun _ _ _ _ _ _ split cuts => absurd cuts (GrammarDraft.not_cuts_cut split)) rfl rfl rfl
  rw [pass, closed]
  dsimp only
  rw [same]
  exact comes

/-- Reading the cut text comes to nothing, even with its last shift split. -/
private theorem readSplit_cut_fails
    (closed : angleParser.close #[] angleParser.firstColumn = .ok column) {places : List Position}
    (last : ⟨1, 5⟩ ∈ places ∨ places = []) :
    ¬ ∃ root, (angleParser.readSplit places (.endOfInput ⟨1, 7⟩) ⟨#[], column⟩ []
      GrammarDraft.cutTokens).1 = .ok root := by
  have start : angleParser.Reads [] ⟨#[], column⟩ := .start closed
  rw [start.exists_readSplit_iff ready_angleParser total_angleParser (by decide) (by decide)]
  exact GrammarDraft.not_accepts_cut last

/-- Behind the first pass, it is the last shift that is to be split. -/
private theorem retry_of_shifted
    (closed : angleParser.close #[] angleParser.firstColumn = .ok column)
    (again : Pass.retry? (angleParser.pass [] { source := .ofString ">>> >>" }) = some place) :
    place = ⟨1, 5⟩ := by
  have start : angleParser.Reads [] ⟨#[], column⟩ := .start closed
  have ambiguous : GrammarDraft.angleGrammar.Ambiguous [] (GrammarDraft.cutTokens.take 2)
      { kind := .rightShift, text := ">>", position := ⟨1, 5⟩ } := by
    refine ⟨rfl, by simp, ?_⟩
    rw [splitAt_nil, GrammarDraft.hasRows_angleGrammar.viable_iff]
    decide
  obtain ⟨_, _, _, shifts, stops⟩ := start.readSplit_of_latest ready_angleParser
    total_angleParser (show ∀ token ∈ GrammarDraft.cutTokens, token.Spelled by decide) (by decide) ⟨1, 7⟩
    (GrammarDraft.not_accepts_cut (.inr rfl)) rfl ambiguous Grammar.unambiguous_nil
  have head := Pass.head?_of_retry again
  rw [(Prod.mk.inj ((first_pass_of_shifted closed).1.trans stops)).2] at head
  cases head
  rfl

/-- Without being told anything, the second pass splits the long shift. -/
private theorem untold_parses_shifted :
    ∃ root, (genericFor GrammarDraft.angleGrammar false).parse (.ofString ">>> >>") = .ok root := by
  have rejected : ¬ GrammarDraft.angleGrammar.Accepts
      (GrammarDraft.shiftedTokens.map (·.kind)) := by
    rw [GrammarDraft.accepts_angles]
    decide
  have ambiguous : GrammarDraft.angleGrammar.Ambiguous [] []
      { kind := .unsignedShift, text := ">>>", position := ⟨1, 1⟩ } := by
    refine ⟨rfl, by simp, ?_⟩
    rw [splitAt_nil, GrammarDraft.hasRows_angleGrammar.viable_iff]
    decide
  have last : GrammarDraft.angleGrammar.Unambiguous []
      [{ kind := .unsignedShift, text := ">>>", position := ⟨1, 1⟩ }]
      [{ kind := .rightShift, text := ">>", position := ⟨1, 5⟩ }] := by
    refine Grammar.unambiguous_of_stuck ?_
    rw [splitAt_nil, GrammarDraft.hasRows_angleGrammar.viable_iff]
    decide
  exact parse_of_split (ready_genericFor GrammarDraft.build_angles false)
    (total_genericFor GrammarDraft.angleGrammar false) rfl GrammarDraft.pending_shifted
    (by decide) (by decide) (by decide) rejected rfl ambiguous last
    (GrammarDraft.accepts_angles.mpr (by decide))

end Parser

end JavaFrontend
