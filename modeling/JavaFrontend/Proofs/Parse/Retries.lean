import JavaFrontend.Proofs.Grammar.TokenRows
import JavaFrontend.Proofs.Parse.Tapes
import JavaFrontend.Proofs.Reduction.GenericTree
import Mathlib.Data.List.Induction
import Mathlib.Data.List.Nodup

/-!
The passes that a parse makes over a list of tokens. Each of them splits one more of its shifts, so
that there are at most as many retries as shifts. Each scans the first of the same tokens, apart
from the shifts that it splits, and of the errors the one that got furthest is reported.
-/

namespace JavaFrontend

variable {α : Type}

theorem Position.isLT_compare_iff {a b : Position} :
    (a.compare b).isLT ↔ a.line < b.line ∨ a.line = b.line ∧ a.column < b.column := by
  rw [Position.compare, Ordering.isLT_iff_eq_lt, Ordering.then_eq_lt, Nat.compare_eq_lt,
    Nat.compare_eq_lt, Nat.compare_eq_eq]

theorem Position.isLE_compare_iff {a b : Position} :
    (a.compare b).isLE ↔ a.line < b.line ∨ a.line = b.line ∧ a.column ≤ b.column := by
  rw [Position.compare, Ordering.isLE_iff_eq_lt_or_eq_eq, Ordering.then_eq_lt, Ordering.then_eq_eq,
    Nat.compare_eq_lt, Nat.compare_eq_lt, Nat.compare_eq_eq, Nat.compare_eq_eq]
  omega

/-! ### Tokens with some of the shifts split -/

namespace Token

/-- A shift is written as its kind says. -/
def Spelled (token : Token) : Prop :=
  (token.kind = .rightShift → token.text = ">>") ∧
    (token.kind = .unsignedShift → token.text = ">>>")

instance (token : Token) : Decidable token.Spelled := by
  unfold Spelled
  infer_instance

/-- A single `>` at the position. -/
def angle (position : Position) : Token := { kind := .greater, text := ">", position }

/-- For a shift, two or three single `>` in successive columns; any other token as it is. -/
def unjoined (token : Token) : List Token :=
  match token.kind with
  | .rightShift => [angle token.position, angle (token.position.shift 1)]
  | .unsignedShift =>
    [angle token.position, angle (token.position.shift 1), angle (token.position.shift 2)]
  | _ => [token]

theorem unjoined_of_single {token : Token} (single : token.kind.isRightShift = false) :
    token.unjoined = [token] := by
  unfold unjoined
  split <;> simp_all [Kind.isRightShift]

theorem unjoined_eq_cons {token : Token} (shift : token.kind.isRightShift) :
    ∃ rest, token.unjoined = angle token.position :: rest := by
  obtain ⟨kind, text, position, value⟩ := token
  cases kind with
  | rightShift => exact ⟨_, rfl⟩
  | unsignedShift => exact ⟨_, rfl⟩
  | _ => cases shift

theorem unjoined_of_shift {token piece : Token} (shift : token.kind.isRightShift)
    (member : piece ∈ token.unjoined) : ∃ position, piece = angle position := by
  obtain ⟨kind, text, position, value⟩ := token
  cases kind with
  | rightShift =>
    rcases List.mem_cons.mp member with rfl | rest
    · exact ⟨_, rfl⟩
    · exact ⟨_, List.mem_singleton.mp rest⟩
  | unsignedShift =>
    rcases List.mem_cons.mp member with rfl | rest
    · exact ⟨_, rfl⟩
    · rcases List.mem_cons.mp rest with rfl | rest
      · exact ⟨_, rfl⟩
      · exact ⟨_, List.mem_singleton.mp rest⟩
  | _ => cases shift

end Token

/-- The tokens with the shifts at the places split. -/
def splitAt (places : List Position) (tokens : List Token) : List Token :=
  tokens.flatMap fun token => if token.position ∈ places then token.unjoined else [token]

/-- What stands among the tokens behind splitting stood there before, or is a part of a shift. -/
theorem mem_splitAt {places : List Position} {tokens : List Token} {token : Token}
    (member : token ∈ splitAt places tokens) :
    token ∈ tokens ∨ ∃ position, token = .angle position := by
  obtain ⟨whole, among, piece⟩ := List.mem_flatMap.mp member
  split at piece
  · by_cases shift : whole.kind.isRightShift
    · exact .inr (Token.unjoined_of_shift shift piece)
    · rw [Token.unjoined_of_single (eq_false_of_ne_true shift)] at piece
      exact .inl (List.mem_singleton.mp piece ▸ among)
  · exact .inl (List.mem_singleton.mp piece ▸ among)

/-! ### Passes after which there is another one -/

namespace Pass

variable {pass : Pass α} {place : Position}

/-- The pass stopped at a token there that does not fit. -/
def StopsAt (pass : Pass α) (position : Position) : Prop :=
  ∃ kind expected, pass.outcome = .error (.unexpected position kind expected)

theorem head?_of_retry (again : pass.retry? = some place) : pass.shifts.head? = some place := by
  unfold retry? at again
  split at again
  · exact again
  · cases again

theorem stopsAt_of_retry (again : pass.retry? = some place) :
    ∃ position, pass.StopsAt position := by
  unfold retry? at again
  split at again
  · exact ⟨_, _, _, ‹_›⟩
  · cases again

end Pass

namespace Parser

variable {splits places : List Position} {token : Token} {tokens : List Token} {tape : Tape}

private theorem singles_eq (spelled : token.Spelled) (shift : token.kind.isRightShift) :
    singles token = token.unjoined := by
  obtain ⟨kind, text, position, value⟩ := token
  cases kind with
  | rightShift =>
    cases spelled.1 rfl
    rfl
  | unsignedShift =>
    cases spelled.2 rfl
    rfl
  | _ => cases shift

theorem pieces_eq (spelled : token.Spelled) :
    pieces splits token = if token.position ∈ splits then token.unjoined else [token] := by
  unfold pieces isSplit
  by_cases shift : token.kind.isRightShift
  · simp [shift, singles_eq spelled shift]
  · simp [shift, Token.unjoined_of_single (eq_false_of_ne_true shift)]

theorem flatMap_pieces (spelled : ∀ token ∈ tokens, token.Spelled) :
    tokens.flatMap (pieces splits) = splitAt splits tokens :=
  List.flatMap_congr fun token member => pieces_eq (spelled token member)

theorem taken_eq (stands : tape.Stands tokens more) (spelled : ∀ token ∈ tokens, token.Spelled) :
    taken splits tape = splitAt splits tokens := by
  rw [taken, stands.read, flatMap_pieces spelled]

theorem splitAt_concat (token : Token) (single : token.kind.isRightShift = false) :
    splitAt splits (tokens ++ [token]) = splitAt splits tokens ++ [token] := by
  simp [splitAt, Token.unjoined_of_single single]

/-- Splitting shifts makes no end mark. -/
theorem kind_ne_of_mem_splitAt (inside : ∀ token ∈ tokens, token.kind ≠ .endOfInput)
    (member : token ∈ splitAt splits tokens) : token.kind ≠ .endOfInput := by
  rcases mem_splitAt member with among | ⟨position, rfl⟩
  · exact inside token among
  · nofun

/-! ### The passes over a list -/

section List

variable {parser : Parser α} {source : TokenList} {earlier later : List (Pass α)} {pass : Pass α}
  {position : Position}

/-- A pass leaves its tape somewhere in the list, and notes down only shifts of the list that it
does not split. -/
theorem pass_stands (parser : Parser α) (splits : List Position)
    (inside : ∀ token ∈ source.significant, token.kind ≠ .endOfInput)
    (stands : tape.Stands [] (source.significant ++ [Token.endOfInput source.finish])) :
    (∃ passed left, source.significant ++ [Token.endOfInput source.finish] = passed ++ left ∧
      (parser.pass splits tape).tape.Stands passed left) ∧
    ∀ position ∈ (parser.pass splits tape).shifts, position ∉ splits ∧
      ∃ token ∈ source.significant, token.kind.isRightShift ∧ token.position = position := by
  unfold Parser.pass
  split
  · exact ⟨⟨[], _, rfl, stands⟩, by simp⟩
  · obtain ⟨same, passed, left, split, further⟩ :=
      continuePass_stands parser splits { earlier := #[], last := _ } [] tape _ _ stands inside
    refine ⟨⟨passed, left, split, by simpa using further⟩, fun position noted => ?_⟩
    have shifts : (parser.continuePass splits _ [] tape).shifts = _ := congrArg Prod.snd same
    rw [shifts] at noted
    rcases mem_shifts_readSplit _ _ _ _ _ _ noted with none | found
    · cases none
    · exact found

/-- Each pass begins at the first token of the list. -/
theorem begin_of_passes_list (inside : ∀ token ∈ source.significant, token.kind ≠ .endOfInput)
    (split : parser.passes (.list source) = earlier ++ pass :: later) :
    ∃ tape : Tape, tape.Stands [] (source.significant ++ [Token.endOfInput source.finish]) ∧
      tape.read = [] ∧ pass = parser.pass (splitsAfter earlier) tape := by
  refine begin_of_passes _ (Tape.stands_start source) (fun splits tape stands => ?_) split
  obtain ⟨⟨passed, left, same, further⟩, -⟩ := pass_stands parser splits inside stands
  rw [same]
  exact further.rewind

/-- What is split for another pass is a shift of the list that was not split before. -/
theorem mem_of_retry (inside : ∀ token ∈ source.significant, token.kind ≠ .endOfInput)
    (split : parser.passes (.list source) = earlier ++ pass :: later)
    (again : pass.retry? = some position) :
    position ∉ splitsAfter earlier ∧
      ∃ token ∈ source.significant, token.kind.isRightShift ∧ token.position = position := by
  obtain ⟨tape, stands, -, rfl⟩ := begin_of_passes_list inside split
  exact (pass_stands parser _ inside stands).2 position
    (List.mem_of_head? (Pass.head?_of_retry again))

theorem splitsAfter_concat (again : pass.retry? = some position) (earlier : List (Pass α)) :
    splitsAfter (earlier ++ [pass]) = position :: splitsAfter earlier := by
  simp [splitsAfter, again]

/-- Each pass but the last splits another shift of the list. -/
theorem splitsAfter_list (inside : ∀ token ∈ source.significant, token.kind ≠ .endOfInput)
    (split : parser.passes (.list source) = earlier ++ pass :: later) :
    (splitsAfter earlier).length = earlier.length ∧ (splitsAfter earlier).Nodup ∧
      ∀ position ∈ splitsAfter earlier,
        ∃ token ∈ source.significant, token.kind.isRightShift ∧ token.position = position := by
  induction earlier using List.reverseRecOn generalizing pass later with
  | nil => exact ⟨rfl, List.nodup_nil, by simp [splitsAfter]⟩
  | append_singleton earlier before ih =>
    rw [List.append_assoc, List.singleton_append] at split
    obtain ⟨length, distinct, shifts⟩ := ih split
    obtain ⟨position, again⟩ := retry_of_further split (List.cons_ne_nil _ _)
    obtain ⟨fresh, shift⟩ := mem_of_retry inside split again
    rw [splitsAfter_concat again]
    refine ⟨by simp [length], List.nodup_cons.mpr ⟨fresh, distinct⟩, ?_⟩
    exact List.forall_mem_cons.mpr ⟨shift, shifts⟩

/-- What is split is at most all of the shifts of the list. -/
private theorem length_le_of_nodup {places : List Position} (distinct : places.Nodup)
    (shifts : ∀ position ∈ places,
      ∃ token ∈ source.significant, token.kind.isRightShift ∧ token.position = position) :
    places.length ≤ (source.significant.filter (·.kind.isRightShift)).length := by
  have inside : places ⊆ (source.significant.filter (·.kind.isRightShift)).map (·.position) := by
    intro position member
    obtain ⟨token, among, shift, rfl⟩ := shifts position member
    exact List.mem_map_of_mem (List.mem_filter.mpr ⟨among, shift⟩)
  simpa using (distinct.subperm inside).length_le

/-- The last pass over a list asks for no other one, and each before it has split a shift. -/
theorem last_of_passes_list (inside : ∀ token ∈ source.significant, token.kind ≠ .endOfInput) :
    ∃ earlier, ∃ last : Pass α,
      parser.passes (.list source) = earlier ++ [last] ∧ last.retry? = none ∧
        earlier.length ≤ (source.significant.filter (·.kind.isRightShift)).length := by
  obtain ⟨earlier, last, split⟩ :=
    (List.eq_nil_or_concat (parser.passes (.list source))).resolve_left (List.cons_ne_nil _ _)
  rw [List.concat_eq_append] at split
  obtain ⟨length, distinct, shifts⟩ := splitsAfter_list inside split
  have bound := length_le_of_nodup distinct shifts
  refine ⟨earlier, last, split, ?_, by omega⟩
  -- Were it for the number of passes that the last one is the last, all tokens would be split.
  cases again : last.retry? with
  | none => rfl
  | some position =>
    obtain ⟨fresh, shift⟩ := mem_of_retry inside split again
    have more := length_le_of_nodup (List.nodup_cons.mpr ⟨fresh, distinct⟩)
      (List.forall_mem_cons.mpr ⟨shift, shifts⟩)
    have few : (source.significant.filter (·.kind.isRightShift)).length ≤ source.tokens.length :=
      (List.length_filter_le _ _).trans (List.length_filter_le _ _)
    rcases final_of_last split with none | all
    · rw [again] at none
      cases none
    · have all : earlier.length = source.tokens.length := all
      simp only [List.length_cons] at more
      omega

/-- A pass over a list scans the first of its tokens with the shifts split, and all of them if it
makes something of them. -/
theorem scanned_of_pass_list (ready : parser.Ready)
    (inside : ∀ token ∈ source.significant, token.kind ≠ .endOfInput)
    (spelled : ∀ token ∈ source.significant, token.Spelled)
    (stands : tape.Stands [] (source.significant ++ [Token.endOfInput source.finish]))
    (unread : tape.read = []) :
    let pass := parser.pass splits tape
    let tokens := splitAt splits source.significant
    pass.scanned splits <+: tokens ++ [Token.endOfInput source.finish] ∧
      (∀ root, pass.outcome = .ok root →
        pass.scanned splits = tokens ∨
          pass.scanned splits = tokens ++ [Token.endOfInput source.finish]) := by
  intro pass tokens
  obtain ⟨⟨passed, left, split, further⟩, -⟩ := pass_stands parser splits inside stands
  have ended : (Token.endOfInput source.finish).Spelled := ⟨nofun, nofun⟩
  have marked (token : Token) (member : token ∈ passed) : token.Spelled := by
    rcases List.mem_append.mp (split ▸ List.mem_append_left left member) with among | last
    · exact spelled token among
    · exact List.mem_singleton.mp last ▸ ended
  have taken : Parser.taken splits pass.tape = splitAt splits passed := taken_eq further marked
  have all : splitAt splits (source.significant ++ [Token.endOfInput source.finish]) =
      tokens ++ [Token.endOfInput source.finish] := splitAt_concat _ rfl
  obtain ⟨reason, -, failed⟩ | ⟨read, chart, came⟩ := parser.pass_cases splits tape unread
  · simp [pass, failed, Pass.scanned]
  rw [came.scanned_eq ready]
  constructor
  · refine came.taken.trans ?_
    rw [taken, ← all, split]
    exact ⟨splitAt splits left, List.flatMap_append.symm⟩
  · intro root made
    obtain ⟨before, finish, kind, whole, read⟩ := came.whole root made
    have last : finish ∈ splitAt splits passed := by
      rw [← taken, whole]
      exact List.mem_append_right _ (List.mem_singleton_self finish)
    rcases List.prefix_concat_iff.mp ⟨left, split.symm⟩ with same | part
    · rw [same, all, whole] at taken
      obtain ⟨rfl, same⟩ := List.append_inj' taken rfl
      rw [same] at read
      exact read
    · exact absurd kind
        (kind_ne_of_mem_splitAt (fun token member => inside token (part.subset member)) last)

end List

/-! ### The error that counts -/

section Source

variable {parser : Parser α} {source : TokenSource} {earlier : List (Pass α)} {pass : Pass α}

/-- Of passes that stop at a token each, the one that got furthest counts, and of several that got
as far the first. -/
theorem verdict_furthest {first : Pass α} {rest : List (Pass α)}
    (stopped : ∀ pass ∈ first :: rest, ∃ position, pass.StopsAt position) :
    ∃ (earlier later : List (Pass α)) (pass : Pass α) (position : Position),
      first :: rest = earlier ++ pass :: later ∧
      verdict (first, rest) = pass.outcome ∧ pass.StopsAt position ∧
      (∀ other ∈ earlier, ∃ place, other.StopsAt place ∧ (place.compare position).isLT) ∧
      ∀ other ∈ later, ∃ place, other.StopsAt place ∧ (place.compare position).isLE := by
  induction rest using List.reverseRecOn with
  | nil =>
    obtain ⟨position, stops⟩ := stopped first List.mem_cons_self
    exact ⟨[], [], first, position, rfl, rfl, stops, by simp, by simp⟩
  | append_singleton rest last ih =>
    obtain ⟨place, further⟩ := stopped last (by simp)
    obtain ⟨earlier, later, pass, position, split, counts, stops, before, after⟩ :=
      ih fun pass member => stopped pass (List.mem_append_left [last] member)
    have compared : verdict (first, rest ++ [last]) =
        if (position.compare place).isLT then last.outcome else pass.outcome := by
      obtain ⟨kind, expected, stops⟩ := stops
      obtain ⟨_, _, further⟩ := further
      rw [verdict, List.foldl_append]
      change Pass.prefer (verdict (first, rest)) last.outcome = _
      rw [counts, stops, further]
      rfl
    by_cases furthest : (position.compare place).isLT
    · refine ⟨first :: rest, [], last, place, rfl, by rw [compared, if_pos furthest], further, ?_,
        by simp⟩
      rw [split]
      intro other member
      rw [Position.isLT_compare_iff] at furthest
      rcases List.mem_append.mp member with among | among
      · obtain ⟨nearer, there, less⟩ := before other among
        refine ⟨nearer, there, ?_⟩
        rw [Position.isLT_compare_iff] at less ⊢
        omega
      · rcases List.mem_cons.mp among with rfl | among
        · exact ⟨position, stops, Position.isLT_compare_iff.mpr furthest⟩
        · obtain ⟨nearer, there, less⟩ := after other among
          refine ⟨nearer, there, ?_⟩
          rw [Position.isLE_compare_iff] at less
          rw [Position.isLT_compare_iff]
          omega
    · refine ⟨earlier, later ++ [last], pass, position, ?_, by rw [compared, if_neg furthest],
        stops, before, ?_⟩
      · rw [← List.cons_append, split, List.append_assoc, List.cons_append]
      · intro other member
        rcases List.mem_append.mp member with among | among
        · exact after other among
        · refine ⟨place, List.mem_singleton.mp among ▸ further, ?_⟩
          rw [Position.isLT_compare_iff] at furthest
          rw [Position.isLE_compare_iff]
          omega

/-- If the last pass does not stop at a token, it is what counts. -/
theorem parse_of_last (split : parser.passes source = earlier ++ [pass])
    (final : ∀ position, ¬ pass.StopsAt position) : parser.parse source = pass.outcome := by
  have counts (best : Except ParseError α) : Pass.prefer best pass.outcome = pass.outcome := by
    unfold Pass.prefer
    split
    · rename_i stops
      exact absurd ⟨_, _, stops⟩ (final _)
    · rfl
  unfold passes at split
  cases earlier with
  | nil =>
    obtain ⟨rfl, none⟩ := List.cons.inj split
    rw [parse, verdict, none]
    rfl
  | cons first earlier =>
    obtain ⟨rfl, rest⟩ : _ ∧ _ = earlier ++ [pass] := List.cons.inj split
    rw [parse, verdict, rest, List.foldl_append]
    exact counts _

/-- What the last pass makes of the tokens is what counts. -/
theorem parse_of_made {root : α} (split : parser.passes source = earlier ++ [pass])
    (made : pass.outcome = .ok root) : parser.parse source = .ok root := by
  refine (parse_of_last split ?_).trans made
  rintro place ⟨kind, expected, stops⟩
  rw [made] at stops
  cases stops

/-- If a parse stops at a token, all its passes do. -/
theorem stopsAt_of_parse {position : Position} {kind : Kind} {expected : List Kind}
    (failed : parser.parse source = .error (.unexpected position kind expected)) :
    ∀ pass ∈ parser.passes source, ∃ place, pass.StopsAt place := by
  intro pass member
  obtain ⟨earlier, later, split⟩ := List.append_of_mem member
  by_cases further : later = []
  · subst further
    by_contra final
    rw [parse_of_last split fun place stops => final ⟨place, stops⟩] at failed
    exact final ⟨position, kind, expected, failed⟩
  · obtain ⟨_, again⟩ := retry_of_further split further
    exact Pass.stopsAt_of_retry again

end Source

end Parser

/-! ### A grammar with shifts -/

namespace GrammarDraft

/-- Rows of tokens, with shifts and with single `>` in their places. -/
def shiftRows : List (List Kind) := [
  [.identifier, .greater, .greater, .identifier, .rightShift, .identifier],
  [.identifier, .rightShift, .identifier, .rightShift, .semicolon],
  [.identifier, .rightShift, .identifier, .greater, .semicolon],
  [.identifier, .rightShift, .identifier, .greater, .greater, .identifier, .semicolon]]

def shifts : GrammarDraft where
  alternatives := shiftRows.map fun kinds => ⟨"Goal", kinds.map .token⟩

def shiftProductions : List (String × List Production) :=
  [("Goal", shiftRows.map fun kinds => kinds.map .token)]

def shiftGrammar : Grammar where
  start := "Goal"
  collections := number 0 shiftProductions
  names := shifts.mentioned { productions := shiftProductions } "Goal"

theorem build_shifts : shifts.build = .ok shiftGrammar :=
  build_single rfl rfl rfl rfl (by decide) (by decide)

theorem hasRows_shiftGrammar : shiftGrammar.HasRows shiftRows := rfl

/-- Two shifts between three identifiers. -/
def shiftTokens : List Token := [
  { kind := .identifier, text := "a", position := ⟨1, 1⟩ },
  { kind := .rightShift, text := ">>", position := ⟨1, 2⟩ },
  { kind := .identifier, text := "b", position := ⟨1, 4⟩ },
  { kind := .rightShift, text := ">>", position := ⟨1, 5⟩ },
  { kind := .identifier, text := "c", position := ⟨1, 7⟩ }]

end GrammarDraft

/-! ### Soundness -/

namespace Parser

/-- Retries terminate and are sound. There is at most one pass more than there are shifts, and the
last one asks for no other. The pass behind some others splits as many shifts of the list as there
were others, and scans the first of the tokens with exactly these split. If the parse succeeds, its
last pass has, and it has scanned all of them, with the end mark or without. If the parse stops at
a token, all passes do, it stops where one of them does, those before that one did not get as far,
and those behind it got no further. -/
theorem retries_sound {draft : GrammarDraft} {grammar : Grammar} (built : draft.build = .ok grammar)
    (typeContext : Bool) (tokens : List Token) (distinct : (tokens.map (·.position)).Nodup)
    (spelled : ∀ token ∈ tokens, token.Spelled) :
    let parser := genericFor grammar typeContext
    let source := TokenList.ofTokens tokens
    let parse := parser.parse (.list source)
    let passes := parser.passes (.list source)
    passes.length ≤ (source.significant.filter (·.kind.isRightShift)).length + 1 ∧
    (∃ (earlier : List (Pass Node)) (last : Pass Node),
      passes = earlier ++ [last] ∧ last.retry? = none) ∧
    (∀ (earlier later : List (Pass Node)) (pass : Pass Node), passes = earlier ++ pass :: later →
      (splitsAfter earlier).length = earlier.length ∧ (splitsAfter earlier).Nodup ∧
      (∀ position ∈ splitsAfter earlier, ∃! token, token ∈ source.significant ∧
        token.kind.isRightShift ∧ token.position = position) ∧
      (∃ tape, pass = parser.pass (splitsAfter earlier) tape) ∧
      pass.scanned (splitsAfter earlier) <+:
        splitAt (splitsAfter earlier) source.significant ++ [.endOfInput source.finish]) ∧
    (∀ root, parse = .ok root → ∃ (earlier : List (Pass Node)) (pass : Pass Node),
      passes = earlier ++ [pass] ∧ pass.outcome = .ok root ∧
      let all := splitAt (splitsAfter earlier) source.significant
      (pass.scanned (splitsAfter earlier) = all ∨
        pass.scanned (splitsAfter earlier) = all ++ [.endOfInput source.finish])) ∧
    ∀ position kind expected, parse = .error (.unexpected position kind expected) →
      ∃ (earlier later : List (Pass Node)) (pass : Pass Node), passes = earlier ++ pass :: later ∧
        pass.outcome = .error (.unexpected position kind expected) ∧
        (∀ other ∈ earlier, ∃ place, other.StopsAt place ∧ (place.compare position).isLT) ∧
        ∀ other ∈ later, ∃ place, other.StopsAt place ∧ (place.compare position).isLE := by
  intro parser source parse passes
  have ready := ready_genericFor built typeContext
  have inside (token : Token) (member : token ∈ source.significant) : token.kind ≠ .endOfInput :=
    (TokenList.inside_ofTokens member).2
  have written (token : Token) (member : token ∈ source.significant) : token.Spelled :=
    spelled token (TokenList.inside_ofTokens member).1
  obtain ⟨earlier, last, all, final, bound⟩ := @last_of_passes_list _ parser _ inside
  refine ⟨?_, ⟨earlier, last, all, final⟩, ?_, ?_, ?_⟩
  · rw [show passes = _ from all]
    simpa using bound
  · intro earlier later pass split
    obtain ⟨length, different, shifts⟩ := splitsAfter_list inside split
    obtain ⟨tape, stands, unread, rfl⟩ := begin_of_passes_list inside split
    refine ⟨length, different, fun position member => ?_, ⟨tape, rfl⟩,
      (scanned_of_pass_list ready inside written stands unread).1⟩
    obtain ⟨token, among, shift, there⟩ := shifts position member
    refine ⟨token, ⟨among, shift, there⟩, fun other ⟨also, _, same⟩ => ?_⟩
    exact List.inj_on_of_nodup_map distinct (TokenList.inside_ofTokens also).1
      (TokenList.inside_ofTokens among).1 (same.trans there.symm)
  · intro root parsed
    obtain ⟨earlier, pass, split, outcome⟩ := outcome_of_parse parsed (by simp)
    refine ⟨earlier, pass, split, outcome, ?_⟩
    obtain ⟨tape, stands, unread, rfl⟩ := begin_of_passes_list inside split
    exact (scanned_of_pass_list ready inside written stands unread).2 root outcome
  · intro position kind expected failed
    obtain ⟨earlier, later, pass, place, split, counts, stops, before, after⟩ :=
      verdict_furthest (stopsAt_of_parse failed)
    have outcome : pass.outcome = .error (.unexpected position kind expected) :=
      counts.symm.trans failed
    obtain ⟨_, _, same⟩ := stops
    rw [outcome] at same
    cases same
    exact ⟨earlier, later, pass, split, outcome, before, after⟩

/-- There are at most three passes over tokens with two shifts, and the last asks for no other. -/
theorem retries_of_shifts : GrammarDraft.shifts.build = .ok GrammarDraft.shiftGrammar ∧
    (GrammarDraft.shiftTokens.map (·.position)).Nodup ∧
    (∀ token ∈ GrammarDraft.shiftTokens, token.Spelled) ∧
    let passes := (genericFor GrammarDraft.shiftGrammar true).passes
      (.list (.ofTokens GrammarDraft.shiftTokens))
    passes.length ≤ 3 ∧ ∃ earlier last, passes = earlier ++ [last] ∧ last.retry? = none := by
  have distinct : (GrammarDraft.shiftTokens.map (·.position)).Nodup := by decide
  have spelled : ∀ token ∈ GrammarDraft.shiftTokens, token.Spelled := by decide
  have two : ((TokenList.ofTokens GrammarDraft.shiftTokens).significant.filter
      (·.kind.isRightShift)).length = 2 := by decide
  obtain ⟨bound, final, -⟩ := retries_sound GrammarDraft.build_shifts true _ distinct spelled
  rw [two] at bound
  exact ⟨GrammarDraft.build_shifts, distinct, spelled, bound, final⟩

end Parser

end JavaFrontend
