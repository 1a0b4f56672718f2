import JavaFrontend.Proofs.Parse.Retries
import JavaFrontend.Proofs.Parse.TokenLists

/-!
Which shifts a parse splits. A pass notes down the shifts at which a single `>` would have fitted
too, and for the next pass the last of them is split as well. So a parse finds a set of shifts with
which the tokens are accepted as long as the last of those noted down is always one of the set. It
never takes a split back, and misses other sets.
-/

namespace JavaFrontend

variable {α : Type}

/-! ### Splitting a list -/

section Kinds

variable {holds : Kind → Bool} (double : holds .rightShift) (triple : holds .unsignedShift)
  (single : holds .greater)
include double triple single

/-- What holds of shifts and of single `>` holds of all parts of a token or of none of them. -/
private theorem parts_cases (places : List Position) (token : Token) :
    let parts := if token.position ∈ places then token.unjoined else [token]
    (¬ holds token.kind ∧ parts = [token]) ∨
      holds token.kind ∧ ∀ part ∈ parts, holds part.kind := by
  intro parts
  by_cases shift : token.kind.isRightShift
  · have same : holds token.kind := by
      cases kind : token.kind <;> simp_all [Kind.isRightShift]
    refine .inr ⟨same, fun part member => ?_⟩
    rcases mem_splitAt (show part ∈ splitAt places [token] by simpa [splitAt] using member)
      with among | ⟨position, rfl⟩
    · exact List.mem_singleton.mp among ▸ same
    · exact single
  · have alone : parts = [token] := by
      simp [parts, Token.unjoined_of_single (eq_false_of_ne_true shift)]
    rw [alone]
    by_cases same : holds token.kind
    · exact .inr ⟨same, by simpa using same⟩
    · exact .inl ⟨same, rfl⟩

private theorem takeWhile_splitAt (places : List Position) (tokens : List Token) :
    (splitAt places tokens).takeWhile (fun token => holds token.kind) =
      splitAt places (tokens.takeWhile fun token => holds token.kind) := by
  induction tokens with
  | nil => rfl
  | cons token tokens ih =>
    rw [List.takeWhile_cons, splitAt, List.flatMap_cons]
    rcases parts_cases double triple single places token with ⟨ended, alone⟩ | ⟨inside, parts⟩
    · rw [alone, if_neg ended, List.singleton_append, List.takeWhile_cons, if_neg ended]
      rfl
    · rw [if_pos inside, List.takeWhile_append_of_pos parts]
      exact congrArg _ ih

private theorem filter_splitAt (places : List Position) (tokens : List Token) :
    (splitAt places tokens).filter (fun token => holds token.kind) =
      splitAt places (tokens.filter fun token => holds token.kind) := by
  induction tokens with
  | nil => rfl
  | cons token tokens ih =>
    rw [List.filter_cons, splitAt, List.flatMap_cons, List.filter_append]
    rcases parts_cases double triple single places token with ⟨dropped, alone⟩ | ⟨kept, parts⟩
    · rw [alone, if_neg dropped, List.filter_cons, if_neg dropped]
      exact ih
    · rw [if_pos kept, List.filter_eq_self.mpr parts]
      exact congrArg _ ih

end Kinds

/-- Splitting shifts of a list is splitting them among the tokens that a parser sees. -/
theorem TokenList.significant_splitAt (places : List Position) (tokens : List Token) :
    (ofTokens (splitAt places tokens)).significant =
      splitAt places (ofTokens tokens).significant := by
  unfold significant ofTokens
  dsimp only
  rw [@takeWhile_splitAt (fun kind => kind != .endOfInput) rfl rfl rfl]
  exact @filter_splitAt (fun kind => !kind.isTrivia) rfl rfl rfl places _

/-- Only which of the shifts are split makes a difference. -/
theorem splitAt_congr {places others : List Position} {tokens : List Token}
    (same : ∀ token ∈ tokens, token.kind.isRightShift →
      (token.position ∈ places ↔ token.position ∈ others)) :
    splitAt places tokens = splitAt others tokens := by
  refine List.flatMap_congr fun token member => ?_
  by_cases shift : token.kind.isRightShift
  · simp only [same token member shift]
  · simp [Token.unjoined_of_single (eq_false_of_ne_true shift)]

/-- None of the tokens of the list is an error, and its shifts are written as their kinds say. -/
structure TokenList.Clean (source : TokenList) : Prop where
  inside : ∀ token ∈ source.significant, token.kind ≠ .endOfInput
  spelled : ∀ token ∈ source.significant, token.Spelled
  sound : ∀ token ∈ source.significant, token.error? = none

theorem sound_splitAt {places : List Position} {tokens : List Token}
    (clean : ∀ token ∈ tokens, token.error? = none) :
    ∀ token ∈ splitAt places tokens, token.error? = none := by
  intro token member
  rcases mem_splitAt member with among | ⟨position, rfl⟩
  · exact clean token among
  · rfl

@[simp] theorem splitAt_nil (tokens : List Token) : splitAt [] tokens = tokens := by
  simp [splitAt]

/-! ### Ambiguous shifts -/

namespace Grammar

/-- The shift is not at one of the places, and a single `>` could stand there behind the tokens
before it, with the shifts at the places split. -/
def Ambiguous (grammar : Grammar) (places : List Position) (before : List Token)
    (token : Token) : Prop :=
  token.kind.isRightShift ∧ token.position ∉ places ∧
    grammar.Viable ((splitAt places before).map (·.kind) ++ [.greater])

/-- None of the later tokens is an ambiguous shift. -/
def Unambiguous (grammar : Grammar) (places : List Position) (before later : List Token) : Prop :=
  ∀ between token rest, later = between ++ token :: rest →
    ¬ grammar.Ambiguous places (before ++ between) token

/-- Behind every ambiguous shift that is not chosen there is one that is ambiguous and chosen. -/
def LatestChosen (grammar : Grammar) (chosen places : List Position) (tokens : List Token) :
    Prop :=
  ∀ before token after, tokens = before ++ token :: after →
    grammar.Ambiguous places before token → token.position ∉ chosen →
    ∃ between other rest, after = between ++ other :: rest ∧ other.position ∈ chosen ∧
      grammar.Ambiguous places (before ++ token :: between) other

variable {grammar : Grammar} {places chosen : List Position} {before later tokens : List Token}
  {token : Token}

theorem unambiguous_cons : grammar.Unambiguous places before (token :: later) ↔
    ¬ grammar.Ambiguous places before token ∧
      grammar.Unambiguous places (before ++ [token]) later := by
  constructor
  · intro none
    refine ⟨by simpa using none [] token later rfl, fun between other rest split => ?_⟩
    simpa using none (token :: between) other rest (by rw [split, List.cons_append])
  · rintro ⟨here, further⟩ between other rest split
    cases between with
    | nil =>
      obtain ⟨rfl, rfl⟩ := List.cons.inj split
      simpa using here
    | cons first between =>
      obtain ⟨rfl, same⟩ := List.cons.inj split
      simpa using further between other rest same

theorem unambiguous_nil : grammar.Unambiguous places before [] := by
  simp [Unambiguous]

/-- Only one of the tokens is the last ambiguous shift. -/
theorem latest_unique {first second : List Token} {other : Token} {left right : List Token}
    (here : grammar.Ambiguous places first token) (last : grammar.Unambiguous places (first ++ [token]) left)
    (there : grammar.Ambiguous places second other)
    (final : grammar.Unambiguous places (second ++ [other]) right)
    (same : first ++ token :: left = second ++ other :: right) : token = other := by
  rcases List.append_eq_append_iff.mp same with ⟨between, rfl, rest⟩ | ⟨between, rfl, rest⟩
  · cases between with
    | nil => exact (List.cons.inj rest).1
    | cons _ between =>
      obtain ⟨rfl, rfl⟩ := List.cons.inj rest
      exact absurd (by simpa using there) (last between other right rfl)
  · cases between with
    | nil => exact (List.cons.inj rest).1.symm
    | cons _ between =>
      obtain ⟨rfl, rfl⟩ := List.cons.inj rest
      exact absurd (by simpa using here) (final between token left rfl)

/-- Where the tokens are not viable, nothing behind them is ambiguous. -/
theorem unambiguous_of_stuck (stuck : ¬ grammar.Viable ((splitAt places before).map (·.kind))) :
    grammar.Unambiguous places before later := by
  rintro between token rest - ⟨-, -, viable⟩
  rw [splitAt, List.flatMap_append, List.map_append, List.append_assoc] at viable
  exact stuck viable.of_append

theorem Accepts.viable {kinds : List Kind} (accepted : grammar.Accepts kinds) :
    grammar.Viable kinds := by
  rcases accepted with ⟨longer, -⟩ | ⟨-, derived⟩
  · exact longer.of_append
  · exact .of_generates derived

/-- If splitting all chosen shifts makes the tokens accepted and splitting some of them does not,
another chosen one is ambiguous: the first that is not split. -/
theorem exists_ambiguous (chosenOnly : places ⊆ chosen)
    (accepted : grammar.Accepts ((splitAt chosen tokens).map (·.kind)))
    (rejected : ¬ grammar.Accepts ((splitAt places tokens).map (·.kind))) :
    ∃ before token after, tokens = before ++ token :: after ∧
      grammar.Ambiguous places before token := by
  let missing (token : Token) : Bool :=
    token.kind.isRightShift && decide (token.position ∈ chosen) && decide (token.position ∉ places)
  have agree (before : List Token) (none : ∀ token ∈ before, !missing token) :
      splitAt places before = splitAt chosen before := by
    refine splitAt_congr fun token member shift => ⟨fun among => chosenOnly among, fun among => ?_⟩
    simpa [missing, shift, among] using none token member
  cases found : tokens.find? missing with
  | none =>
    rw [List.find?_eq_none] at found
    rw [agree tokens fun token member => by simpa using found token member] at rejected
    exact absurd accepted rejected
  | some token =>
    obtain ⟨absent, before, after, rfl, none⟩ := List.find?_eq_some_iff_append.mp found
    simp only [missing, Bool.and_eq_true, decide_eq_true_eq] at absent
    obtain ⟨⟨shift, among⟩, unsplit⟩ := absent
    refine ⟨before, token, after, rfl, shift, unsplit, ?_⟩
    obtain ⟨rest, parts⟩ := Token.unjoined_eq_cons shift
    have begins : splitAt chosen (before ++ token :: after) =
        splitAt places before ++ [.angle token.position] ++ (rest ++ splitAt chosen after) := by
      rw [agree before none]
      simp [splitAt, among, parts]
    have viable := accepted.viable
    rw [begins, List.map_append, List.map_append] at viable
    exact viable.of_append

end Grammar

namespace Parser

variable {parser : Parser α} {tokens more : List Token} {chart : Chart α} {finish token : Token}
  {splits places : List Position} {shifts : List Position}

/-! ### What a pass comes to -/

/-- Reading the parts of a token comes before reading on. -/
theorem readOn_append (finish : Token) (chart : Chart α) (passed rest : List Token)
    (clean : ∀ token ∈ passed, token.error? = none) :
    parser.readOn finish chart (passed ++ rest) =
      match parser.steps chart passed with
      | (_, some reason) => .error reason
      | (next, none) => parser.readOn finish next rest := by
  induction passed generalizing chart with
  | nil => rfl
  | cons token passed ih =>
    obtain ⟨here, later⟩ := List.forall_mem_cons.mp clean
    simp only [List.cons_append, readOn, Parser.steps, here]
    cases parser.step chart token with
    | ok next => exact ih next later
    | error reason => rfl

theorem clean_pieces (clean : token.error? = none) :
    ∀ piece ∈ pieces splits token, piece.error? = none := by
  intro piece member
  unfold pieces at member
  split at member
  · obtain ⟨i, -, rfl⟩ := List.mem_map.mp member
    rfl
  · rwa [List.mem_singleton.mp member]

/-- A pass comes to what comes of reading the parts of its tokens, unless a token that it splits is
an error. -/
theorem readSplit_eq_readOn (chart : Chart α) (shifts : List Position)
    (sound : ∀ token ∈ more, isSplit splits token → token.error? = none) :
    (parser.readSplit splits finish chart shifts more).1 =
      parser.readOn finish chart (more.flatMap (pieces splits)) := by
  induction more generalizing chart shifts with
  | nil => rfl
  | cons token more ih =>
    obtain ⟨here, later⟩ := List.forall_mem_cons.mp sound
    rw [List.flatMap_cons]
    cases error : token.error? with
    | some fault =>
      have whole : isSplit splits token = false := by
        by_contra split
        rw [here (eq_true_of_ne_false split)] at error
        cases error
      simp [readSplit, error, pieces, whole, readOn]
    | none =>
      rw [readOn_append _ _ _ _ (clean_pieces error)]
      simp only [readSplit, error]
      rcases parser.steps chart (pieces splits token) with ⟨next, _ | reason⟩
      · exact ih next _ later
      · rfl

theorem clean_of_readOn {root : α} (parsed : parser.readOn finish chart more = .ok root) :
    ∀ token ∈ more, token.error? = none := by
  induction more generalizing chart with
  | nil => simp
  | cons token more ih =>
    rw [readOn] at parsed
    split at parsed
    · cases parsed
    · rename_i clean
      split at parsed
      · exact List.forall_mem_cons.mpr ⟨clean, ih parsed⟩
      · cases parsed

section Total

variable (ready : parser.Ready) (total : parser.Total)
include ready total

/-- The tokens are all read if they are viable, and otherwise reading them stops at one. -/
theorem Reads.steps_cases (reads : parser.Reads tokens chart) (more : List Token) :
    (∃ next, parser.steps chart more = (next, none) ∧ parser.Reads (tokens ++ more) next) ∨
    ∃ last reason, parser.steps chart more = (last, some reason) ∧
      ¬ parser.grammar.Viable ((tokens ++ more).map (·.kind)) := by
  induction more generalizing tokens chart with
  | nil => exact .inl ⟨chart, rfl, by rwa [List.append_nil]⟩
  | cons token more ih =>
    rw [List.append_cons]
    rcases reads.step_cases ready total token with ⟨-, next, ran⟩ | ⟨stuck, refused⟩
    · rw [Parser.steps, ran]
      exact ih (reads.step ran)
    · rw [Parser.steps, refused]
      refine .inr ⟨chart, _, rfl, fun viable => stuck ?_⟩
      rw [List.map_append, List.map_append] at viable
      exact viable.of_append

/-- Tokens none of which is an error are made into something, or reading them stops at one that does
not fit. -/
theorem Reads.readOn_cases (reads : parser.Reads tokens chart)
    (ended : finish.kind = .endOfInput) (clean : ∀ token ∈ more, token.error? = none) :
    (∃ root, parser.readOn finish chart more = .ok root) ∨
      ∃ position kind expected,
        parser.readOn finish chart more = .error (.unexpected position kind expected) := by
  induction more generalizing tokens chart with
  | nil =>
    have accepts {tokens : List Token} {chart : Chart α} (reads : parser.Reads tokens chart) :
        (∃ root, parser.accept chart finish = .ok root) ∨ ∃ position kind expected,
          parser.accept chart finish = .error (.unexpected position kind expected) := by
      rcases reads.accept_cases ready total finish with ⟨-, root, made, -⟩ | ⟨-, refused⟩
      · exact .inl ⟨root, made⟩
      · exact .inr ⟨_, _, _, refused⟩
    rw [readOn]
    rcases reads.finish_eq ready total ended with ⟨-, next, further, same⟩ | ⟨-, same⟩
    · rw [same]
      exact accepts further
    · rw [same]
      exact accepts reads
  | cons token more ih =>
    obtain ⟨here, later⟩ := List.forall_mem_cons.mp clean
    rw [readOn, here]
    rcases reads.step_cases ready total token with ⟨-, next, ran⟩ | ⟨-, refused⟩
    · rw [ran]
      exact ih (reads.step ran) later
    · rw [refused]
      exact .inr ⟨_, _, _, rfl⟩

end Total

/-! ### What a pass notes down -/

/-- A shift is noted down if and only if it is ambiguous. -/
theorem Reads.notes_iff (ready : parser.Ready) (reads : parser.Reads (splitAt splits tokens) chart)
    (token : Token) :
    parser.notes splits chart token ↔ parser.grammar.Ambiguous splits tokens token := by
  have asked : Kind.greater ∈ parser.expected chart.last ↔
      parser.grammar.Viable ((splitAt splits tokens).map (·.kind) ++ [Kind.greater]) :=
    (reads.exact ready).mem_expected ready (reads.last ready)
  unfold notes isSplit Grammar.Ambiguous
  rw [← asked]
  by_cases shift : token.kind.isRightShift <;> simp [shift]

/-- A pass notes down nothing if none of its tokens is ambiguous. Otherwise the first thing on its
list is the last ambiguous shift. -/
theorem Reads.noted_cases (ready : parser.Ready) (total : parser.Total)
    (reads : parser.Reads (splitAt splits tokens) chart) (finish : Token) (shifts : List Position)
    (spelled : ∀ token ∈ more, token.Spelled) (clean : ∀ token ∈ more, token.error? = none) :
    (parser.grammar.Unambiguous splits tokens more ∧
      (parser.readSplit splits finish chart shifts more).2 = shifts) ∨
    ∃ before token after rest, more = before ++ token :: after ∧
      parser.grammar.Ambiguous splits (tokens ++ before) token ∧
      parser.grammar.Unambiguous splits (tokens ++ before ++ [token]) after ∧
      (parser.readSplit splits finish chart shifts more).2 = token.position :: rest := by
  induction more generalizing tokens chart shifts with
  | nil => exact .inl ⟨fun between token rest split => by simp at split, rfl⟩
  | cons token more ih =>
    obtain ⟨written, later⟩ := List.forall_mem_cons.mp spelled
    obtain ⟨here, others⟩ := List.forall_mem_cons.mp clean
    have grown : splitAt splits (tokens ++ [token]) =
        splitAt splits tokens ++ pieces splits token := by
      rw [pieces_eq written, splitAt, List.flatMap_append, List.flatMap_singleton]
      rfl
    -- Whatever comes behind the token, it heads the list of what was noted down up to it.
    have upTo {noted : List Position}
        (same : noted = if parser.notes splits chart token then token.position :: shifts
          else shifts)
        (none : parser.grammar.Unambiguous splits (tokens ++ [token]) more) :
        (parser.grammar.Unambiguous splits tokens (token :: more) ∧ noted = shifts) ∨
        ∃ before other after rest, token :: more = before ++ other :: after ∧
          parser.grammar.Ambiguous splits (tokens ++ before) other ∧
          parser.grammar.Unambiguous splits (tokens ++ before ++ [other]) after ∧
          noted = other.position :: rest := by
      by_cases flagged : parser.notes splits chart token
      · rw [if_pos flagged] at same
        refine .inr ⟨[], token, more, shifts, rfl, ?_, ?_, same⟩
        · rw [List.append_nil]
          exact (reads.notes_iff ready token).mp flagged
        · rwa [List.append_nil]
      · rw [if_neg flagged] at same
        refine .inl ⟨Grammar.unambiguous_cons.mpr ⟨?_, none⟩, same⟩
        rwa [← reads.notes_iff ready]
    rw [readSplit, here]
    dsimp only
    rcases reads.steps_cases ready total (pieces splits token) with
      ⟨next, ran, further⟩ | ⟨last, reason, failed, stuck⟩
    · rw [ran]
      rw [← grown] at further
      rcases ih further _ later others with ⟨none, same⟩ | ⟨before, other, after, rest, rfl, found⟩
      · exact upTo same none
      · exact .inr ⟨token :: before, other, after, rest, rfl, by simpa using found⟩
    · rw [failed]
      rw [← grown] at stuck
      exact upTo rfl (Grammar.unambiguous_of_stuck stuck)

section Total

variable (ready : parser.Ready) (total : parser.Total) (start : parser.Reads [] chart)
  (spelled : ∀ token ∈ tokens, token.Spelled) (clean : ∀ token ∈ tokens, token.error? = none)
  (place : Position)
include ready total start spelled clean

/-- Something is made of the tokens if they are accepted with the shifts at the places split. -/
theorem Reads.exists_readSplit_iff :
    (∃ root, (parser.readSplit splits (.endOfInput place) chart [] tokens).1 = .ok root) ↔
      parser.grammar.Accepts ((splitAt splits tokens).map (·.kind)) := by
  rw [readSplit_eq_readOn chart [] fun token member _ => clean token member,
    flatMap_pieces spelled]
  exact start.exists_readOn_iff ready total rfl (sound_splitAt clean)

/-- If they are not accepted, reading them stops at one, and the last ambiguous shift is on top of
the list. -/
theorem Reads.readSplit_of_latest {before after : List Token}
    (rejected : ¬ parser.grammar.Accepts ((splitAt splits tokens).map (·.kind)))
    (split : tokens = before ++ token :: after)
    (ambiguous : parser.grammar.Ambiguous splits before token)
    (last : parser.grammar.Unambiguous splits (before ++ [token]) after) :
    ∃ position kind expected shifts,
      parser.readSplit splits (.endOfInput place) chart [] tokens =
        (.error (.unexpected position kind expected), token.position :: shifts) := by
  rw [← start.exists_readSplit_iff ready total spelled clean place,
    readSplit_eq_readOn chart [] fun token member _ => clean token member] at rejected
  have reads : parser.Reads (splitAt splits []) chart := start
  obtain ⟨position, kind, expected, stops⟩ :=
    (start.readOn_cases ready total rfl
      (flatMap_pieces spelled ▸ sound_splitAt clean)).resolve_left rejected
  rw [← readSplit_eq_readOn chart [] fun token member _ => clean token member] at stops
  rcases reads.noted_cases ready total (.endOfInput place) [] spelled clean with
    ⟨none, -⟩ | ⟨_, other, _, rest, same, there, final, noted⟩
  · exact absurd ambiguous (none before token after split)
  · obtain rfl := Grammar.latest_unique ambiguous last there final (split.symm.trans same)
    exact ⟨position, kind, expected, rest, Prod.ext stops noted⟩

end Total

/-! ### Passes over a list -/

/-- A single pass makes something of the tokens with the shifts at the places split. -/
def AcceptsSplit (parser : Parser α) (tokens : List Token) (places : List Position) : Prop :=
  ∃ root, (parser.pass [] { source := .list (.ofTokens (splitAt places tokens)) }).outcome =
    .ok root

section List

variable {source : TokenList} {tape : Tape} (ready : parser.Ready) (total : parser.Total)
include ready total

/-- A pass over a list comes to what comes of reading its tokens with the shifts split. -/
theorem pass_eq_readOn (clean : source.Clean)
    (stands : tape.Stands [] (source.significant ++ [Token.endOfInput source.finish])) :
    ∃ chart, parser.Reads [] chart ∧ (parser.pass splits tape).outcome =
      parser.readOn (.endOfInput source.finish) chart (splitAt splits source.significant) := by
  obtain ⟨chart, start, same⟩ := pass_eq_readSplit ready total splits clean.inside stands
  refine ⟨chart, start, (congrArg Prod.fst same).trans ?_⟩
  rw [readSplit_eq_readOn chart [] fun token member _ => clean.sound token member,
    flatMap_pieces clean.spelled]

theorem pass_ok_iff (clean : source.Clean)
    (stands : tape.Stands [] (source.significant ++ [Token.endOfInput source.finish])) :
    (∃ root, (parser.pass splits tape).outcome = .ok root) ↔
      parser.grammar.Accepts ((splitAt splits source.significant).map (·.kind)) := by
  obtain ⟨chart, start, outcome⟩ := pass_eq_readOn ready total clean stands
  rw [outcome]
  exact start.exists_readOn_iff ready total rfl (sound_splitAt clean.sound)

/-- A pass over a list that makes nothing of it stops at a token. -/
theorem pass_stopsAt (clean : source.Clean)
    (stands : tape.Stands [] (source.significant ++ [Token.endOfInput source.finish]))
    (failed : ¬ ∃ root, (parser.pass splits tape).outcome = .ok root) :
    ∃ position, (parser.pass splits tape).StopsAt position := by
  obtain ⟨chart, start, outcome⟩ := pass_eq_readOn ready total clean stands
  rw [outcome] at failed
  obtain ⟨position, kind, expected, stops⟩ :=
    (start.readOn_cases ready total rfl (sound_splitAt clean.sound)).resolve_left failed
  exact ⟨position, kind, expected, outcome.trans stops⟩

/-- What a pass over a list notes down first, if anything, is the last ambiguous shift. -/
theorem pass_shifts (clean : source.Clean)
    (stands : tape.Stands [] (source.significant ++ [Token.endOfInput source.finish])) :
    (parser.grammar.Unambiguous splits [] source.significant ∧
      (parser.pass splits tape).shifts = []) ∨
    ∃ before token after rest, source.significant = before ++ token :: after ∧
      parser.grammar.Ambiguous splits before token ∧
      parser.grammar.Unambiguous splits (before ++ [token]) after ∧
      (parser.pass splits tape).shifts = token.position :: rest := by
  obtain ⟨chart, start, same⟩ := pass_eq_readSplit ready total splits clean.inside stands
  have noted : (parser.pass splits tape).shifts = _ := congrArg Prod.snd same
  have start : parser.Reads (splitAt splits []) chart := start
  rw [noted]
  exact start.noted_cases ready total _ [] clean.spelled clean.sound

/-- A single pass over a list that was split makes something of it only if the grammar accepts it,
and then none of its tokens is an error. -/
theorem AcceptsSplit.accepts {places : List Position}
    (accepted : parser.AcceptsSplit tokens places) :
    (∀ token ∈ splitAt places (TokenList.ofTokens tokens).significant, token.error? = none) ∧
    parser.grammar.Accepts
      ((splitAt places (TokenList.ofTokens tokens).significant).map (·.kind)) := by
  obtain ⟨root, accepted⟩ := accepted
  have inside (token : Token)
      (member : token ∈ (TokenList.ofTokens (splitAt places tokens)).significant) :
      token.kind ≠ .endOfInput := (TokenList.inside_ofTokens member).2
  obtain ⟨chart, start, same⟩ :=
    pass_eq_readSplit ready total [] inside (Tape.stands_start _)
  have outcome := (congrArg Prod.fst same).symm.trans accepted
  rw [readSplit_eq_readOn chart [] (by simp [isSplit]), TokenList.significant_splitAt] at outcome
  have whole (tokens : List Token) : tokens.flatMap (pieces []) = tokens :=
    (List.flatMap_congr fun token _ => by simp [pieces, isSplit]).trans
      (List.flatMap_singleton' tokens)
  rw [whole] at outcome
  have clean := clean_of_readOn outcome
  exact ⟨clean, (start.exists_readOn_iff ready total rfl clean).mp ⟨root, outcome⟩⟩

theorem acceptsSplit_of_accepts {places : List Position}
    (clean : (TokenList.ofTokens tokens).Clean)
    (accepted : parser.grammar.Accepts
      ((splitAt places (TokenList.ofTokens tokens).significant).map (·.kind))) :
    parser.AcceptsSplit tokens places := by
  have same := TokenList.significant_splitAt places tokens
  have clean : (TokenList.ofTokens (splitAt places tokens)).Clean := by
    refine ⟨fun token member => (TokenList.inside_ofTokens member).2, fun token member => ?_,
      same ▸ (sound_splitAt clean.sound)⟩
    rcases mem_splitAt (same ▸ member) with among | ⟨position, rfl⟩
    · exact clean.spelled token among
    · exact ⟨nofun, nofun⟩
  refine (pass_ok_iff ready total clean (Tape.stands_start _)).mpr ?_
  rwa [same, splitAt_nil]

/-- If the last ambiguous shift is a chosen one as long as splitting is of no avail, all shifts that
are split are chosen. -/
theorem splitsAfter_subset {chosen : List Position} {earlier later : List (Pass α)} {pass : Pass α}
    (clean : source.Clean)
    (latest : ∀ places ⊆ chosen,
      ¬ parser.grammar.Accepts ((splitAt places source.significant).map (·.kind)) →
      parser.grammar.LatestChosen chosen places source.significant)
    (split : parser.passes (.list source) = earlier ++ pass :: later) :
    splitsAfter earlier ⊆ chosen := by
  induction earlier using List.reverseRecOn generalizing pass later with
  | nil => exact List.nil_subset chosen
  | append_singleton earlier before ih =>
    rw [List.append_assoc, List.singleton_append] at split
    obtain ⟨position, again⟩ := retry_of_further split (List.cons_ne_nil _ _)
    rw [splitsAfter_concat again]
    refine List.cons_subset.mpr ⟨?_, ih split⟩
    have inside := ih split
    obtain ⟨tape, stands, -, rfl⟩ := begin_of_passes_list clean.inside split
    have rejected : ¬ parser.grammar.Accepts
        ((splitAt (splitsAfter earlier) source.significant).map (·.kind)) := by
      rw [← pass_ok_iff ready total clean stands]
      rintro ⟨root, made⟩
      obtain ⟨place, kind, expected, stops⟩ := Pass.stopsAt_of_retry again
      rw [made] at stops
      cases stops
    have last := Pass.head?_of_retry again
    rcases pass_shifts ready total clean stands with
      ⟨-, none⟩ | ⟨passed, token, after, rest, same, ambiguous, none, noted⟩
    · rw [none] at last
      cases last
    · rw [noted] at last
      cases last
      by_contra other
      obtain ⟨between, further, left, rfl, -, another⟩ :=
        latest _ inside rejected passed token after same ambiguous other
      exact none between further left rfl (by simpa using another)

end List

end Parser

/-! ### Splits that are found and splits that are missed -/

namespace GrammarDraft

theorem accepts_shifts {kinds : List Kind} : shiftGrammar.Accepts kinds ↔ kinds ∈ shiftRows :=
  hasRows_shiftGrammar.accepts_iff (by decide)

/-- Behind an intact shift, the second one is ambiguous. -/
theorem ambiguous_second_shift : shiftGrammar.Ambiguous [] (shiftTokens.take 3)
    { kind := .rightShift, text := ">>", position := ⟨1, 5⟩ } := by
  refine ⟨rfl, by simp, ?_⟩
  rw [splitAt_nil, hasRows_shiftGrammar.viable_iff]
  decide

/-- Two shifts between three identifiers, and a semicolon. -/
def closedShiftTokens : List Token :=
  shiftTokens ++ [{ kind := .semicolon, text := ";", position := ⟨1, 8⟩ }]

end GrammarDraft

namespace Parser

theorem significant_shiftTokens : (TokenList.ofTokens GrammarDraft.shiftTokens).significant =
    GrammarDraft.shiftTokens := by decide

theorem clean_shiftTokens : (TokenList.ofTokens GrammarDraft.shiftTokens).Clean := by
  constructor <;> rw [significant_shiftTokens] <;> decide

/-- Behind the first pass over tokens with two shifts, it is the second that is to be split. -/
private theorem retry_shiftTokens {tape : Tape} {place : Position}
    (stands : tape.Stands [] (GrammarDraft.shiftTokens ++
      [.endOfInput (TokenList.ofTokens GrammarDraft.shiftTokens).finish]))
    (again : Pass.retry? ((genericFor GrammarDraft.shiftGrammar true).pass [] tape) =
      some place) :
    place = ⟨1, 5⟩ := by
  have ambiguous := GrammarDraft.ambiguous_second_shift
  have last := Pass.head?_of_retry again
  rcases pass_shifts (ready_genericFor GrammarDraft.build_shifts true)
      (total_genericFor GrammarDraft.shiftGrammar true) clean_shiftTokens
      (significant_shiftTokens ▸ stands) with
    ⟨none, -⟩ | ⟨before, token, after, rest, same, ⟨shift, -⟩, none, noted⟩
  · rw [significant_shiftTokens] at none
    exact absurd ambiguous (none _ _ _ rfl)
  · rw [noted] at last
    cases last
    rw [significant_shiftTokens] at same
    rcases before with _ | ⟨_, _ | ⟨_, _ | ⟨_, _ | ⟨_, _ | ⟨_, before⟩⟩⟩⟩⟩
    · cases same
      cases shift
    · cases same
      exact absurd ambiguous (none [_] _ _ rfl)
    · cases same
      cases shift
    · cases same
      rfl
    · cases same
      cases shift
    · simp [GrammarDraft.shiftTokens] at same

end Parser

end JavaFrontend
