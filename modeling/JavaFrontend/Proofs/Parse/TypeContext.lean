import JavaFrontend.Proofs.Parse.Retries
import JavaFrontend.Proofs.Parse.Texts
import JavaFrontend.Proofs.Parse.TokenLists

/-!
Telling the lexer where type arguments may close. Where a pass is told so, it cuts a shift on its own
that the passes of a parse that is told nothing come to split one after the other. So the two parses
keep in step as long as nothing but such shifts is cut (`Grammar.Clear`).
-/

namespace JavaFrontend

variable {α : Type}

/-- The token begins with `>` and goes on, and is not one of the shifts at the places, where with
those split only a single `>` can come behind the tokens before. So a pass that is told takes that
`>` alone. -/
def Grammar.Cuts (grammar : Grammar) (places : List Position) (before : List Token)
    (token : Token) : Prop :=
  token.isJoined ∧ token.position ∉ places ∧
    grammar.Closes ((before.flatMap (Parser.pieces places)).map (·.kind))

/-- If a pass that is told cuts the token, then it is a shift that cannot come there as a whole, and
each `>` of it stands where only a single one can come. -/
def Grammar.Clear (grammar : Grammar) (places : List Position) (before : List Token)
    (token : Token) : Prop :=
  let kinds := (before.flatMap (Parser.pieces places)).map (·.kind)
  grammar.Cuts places before token →
    token.kind.isRightShift ∧ ¬ grammar.Viable (kinds ++ [token.kind]) ∧
      ∀ i < token.text.length, grammar.Closes (kinds ++ List.replicate i .greater)

namespace Parser

variable {parser : Parser α} {splits cut every : List Position} {first chart last : Chart α}
  {shifts : List Position} {tape rest : Tape} {before known fresh tokens more : List Token}
  {token : Token} {place : Position}

/-! ### In step -/

/-- The tape has the tokens, some of which are cut, in front of it. With those and the ones at the
first places split, all at the second places are. -/
def Poised (parser : Parser α) (splits every : List Position) (tape : Tape)
    (tokens : List Token) : Prop :=
  ∃ cut known fresh, tape.Lags parser.typeContext cut [] known fresh ∧
    (∀ place, place ∈ every ↔ place ∈ cut ∨ place ∈ splits) ∧ known ++ fresh = tokens ∧
    every ⊆ known.map (·.position)

/-- A pass that takes the shifts at the first places, and those that are cut, as single `>` has got
as far as the chart, as if all shifts at the second places were split. -/
structure Along (parser : Parser α) (splits cut every : List Position) (first chart : Chart α)
    (shifts : List Position) (tape : Tape) (before known fresh : List Token) : Prop where
  lags : tape.Lags parser.typeContext cut before known fresh
  same : ∀ place, place ∈ every ↔ place ∈ cut ∨ place ∈ splits
  through : parser.readThrough every first [] before = some (chart, shifts)
  reads : parser.Reads (before.flatMap (pieces every)) chart
  splitRead : every ⊆ (before ++ known).map (·.position)
  notedRead : shifts ⊆ (before ++ known).map (·.position)

/-- The pass has come to what comes of reading the tokens with the shifts at some places split, and
the next pass can go on from there. -/
def ComesTo (parser : Parser α) (splits : List Position) (first : Chart α) (tokens : List Token)
    (place : Position) (Good : List Position → Prop) (pass : Pass α) : Prop :=
  ∃ every, Good every ∧
    (pass.outcome, pass.shifts) =
      parser.readSplit every (.endOfInput place) first [] tokens ∧
    ∀ position ∈ pass.shifts, parser.Poised (position :: splits) (position :: every)
      pass.tape.rewind (tokens ++ [.endOfInput place])

theorem poised_rewind {position : Position}
    (lags : tape.Lags parser.typeContext cut before known fresh)
    (same : ∀ place, place ∈ every ↔ place ∈ cut ∨ place ∈ splits)
    (whole : before ++ known ++ fresh = tokens) (split : every ⊆ (before ++ known).map (·.position))
    (read : position ∈ (before ++ known).map (·.position)) :
    parser.Poised (position :: splits) (position :: every) tape.rewind tokens := by
  refine ⟨cut, before ++ known, fresh, lags.rewind, fun place => ?_, whole,
    List.cons_subset.mpr ⟨read, split⟩⟩
  simp only [List.mem_cons, same]
  exact or_left_comm

/-- The pass begins in step. -/
theorem Poised.along (poised : parser.Poised splits every tape tokens)
    (start : parser.Reads [] first) :
    ∃ cut known fresh, known ++ fresh = tokens ∧
      parser.Along splits cut every first first [] tape [] known fresh := by
  obtain ⟨cut, known, fresh, lags, same, whole, split⟩ := poised
  exact ⟨cut, known, fresh, whole, lags, same, rfl, start, split, by simp⟩

/-- The shifts that are noted down are among those read. -/
theorem noting_subset {places : List Position} (old : shifts ⊆ places)
    (here : token.position ∈ places) : parser.noting every chart token shifts ⊆ places := by
  unfold noting
  split
  · exact List.cons_subset.mpr ⟨here, old⟩
  · exact old

theorem noting_of_split (parser : Parser α) (chart : Chart α) (shifts : List Position)
    (split : isSplit every token) :
    parser.noting every chart token shifts = shifts := by
  simp [noting, notes, split]

namespace Along

/-- A token that is not cut is split or not for both alike. -/
theorem isSplit_eq (along : parser.Along splits cut every first chart shifts tape before known fresh)
    (uncut : isSplit cut token = false) : isSplit splits token = isSplit every token := by
  unfold isSplit at *
  by_cases shift : token.kind.isRightShift
  · have apart : token.position ∉ cut := by simpa [shift] using uncut
    simp [along.same, apart]
  · simp [shift]

/-- Behind a token that is read, the pass is further along. -/
theorem advance (along : parser.Along splits cut every first chart shifts tape before known fresh)
    (clean : token.error? = none) (stepped : parser.steps chart (pieces every token) = (last, none))
    {known' fresh' : List Token}
    (lags : rest.Lags parser.typeContext cut (before ++ [token]) known' fresh')
    (grown : before ++ known ⊆ before ++ [token] ++ known') :
    parser.Along splits cut every first last (parser.noting every chart token shifts) rest
      (before ++ [token]) known' fresh' where
  lags := lags
  same := along.same
  through := by
    rw [readThrough_append, along.through]
    simp only [Option.bind_some, readThrough, clean, stepped]
  reads := by
    obtain ⟨passed, left, split, further, ⟨-, rfl⟩ | ⟨_, _, reason, -, same, -⟩⟩ :=
      along.reads.steps (pieces every token)
    · rw [List.append_nil] at split
      rw [stepped, ← split] at further
      simpa using further
    · rw [stepped] at same
      cases same
  splitRead := List.Subset.trans along.splitRead (List.map_subset _ grown)
  notedRead :=
    noting_subset (List.Subset.trans along.notedRead (List.map_subset _ grown)) (by simp)

/-- A shift that is cut from now on makes no difference to what was read. -/
theorem recut (along : parser.Along splits cut every first chart shifts tape before known fresh)
    (apart : ∀ other ∈ before, other.position ≠ place) :
    parser.readThrough (place :: every) first [] before = some (chart, shifts) ∧
      before.flatMap (pieces (place :: every)) = before.flatMap (pieces every) := by
  have same (other : Token) (member : other ∈ before) :
      other.position ∈ place :: every ↔ other.position ∈ every := by
    simp [apart other member]
  refine ⟨(readThrough_congr same).trans along.through, List.flatMap_congr fun other member => ?_⟩
  rw [pieces, pieces, isSplit_congr (same other member)]

/-- The pass goes on over a token that is not cut as if it split what is split in all. -/
theorem continuePass_whole
    (along : parser.Along splits cut every first chart shifts tape before known fresh)
    (uncut : isSplit cut token = false) (inside : token.kind ≠ .endOfInput)
    (ran : tape.next (parser.telling chart) = .ok (token, rest)) :
    parser.continuePass splits chart shifts tape =
      match parser.steps chart (pieces every token) with
      | (last, some reason) =>
        { outcome := .error reason, columns := last.columns,
          shifts := parser.noting every chart token shifts, tape := rest }
      | (last, none) =>
        parser.continuePass splits last (parser.noting every chart token shifts) rest := by
  have same := along.isSplit_eq uncut
  have parts : pieces splits token = pieces every token := by rw [pieces, pieces, same]
  have noted : parser.noting splits chart token shifts = parser.noting every chart token shifts := by
    rw [noting, noting, notes, notes, same]
  have goes : parser.continuePass splits chart shifts tape = _ := continuePass_token ran inside
  rw [parts, noted] at goes
  exact goes

/-- A token that is not cut is taken from the tape, unless it is an error. -/
theorem next_uncut
    (along : parser.Along splits cut every first chart shifts tape before known fresh)
    (left : known ++ fresh = token :: more) (uncut : isSplit cut token = false)
    (single : known = [] → parser.telling chart = some true → token.isJoined = false) :
    (∃ fault, token.error? = some fault ∧
      tape.next (parser.telling chart) = .error (.lexical token.position fault)) ∨
    token.error? = none ∧ ∃ rest known' fresh',
      tape.next (parser.telling chart) = .ok (token, rest) ∧
      rest.Lags parser.typeContext cut (before ++ [token]) known' fresh' ∧
      known' ++ fresh' = more ∧ before ++ known ⊆ before ++ [token] ++ known' := by
  cases known with
  | cons first known =>
    obtain ⟨rfl, rfl⟩ := List.cons.inj left
    obtain ⟨rest, ran, lags⟩ := along.lags.next_known uncut (parser.telling chart)
    exact .inr ⟨along.lags.clean _ (by simp), rest, known, fresh, ran, lags, rfl, by simp⟩
  | nil =>
    cases left
    have told : (parser.telling chart).isSome = parser.typeContext := by
      unfold telling
      cases parser.typeContext <;> rfl
    rcases along.lags.next_fresh uncut told (single rfl) with failed | ⟨clean, rest, ran, lags⟩
    · exact .inl failed
    · exact .inr ⟨clean, rest, [], more, ran, lags, rfl, by simp⟩

/-- Where reading stops at a token, it stops for both. -/
theorem readSplit_stopped
    (along : parser.Along splits cut every first chart shifts tape before known fresh)
    (clean : token.error? = none) {reason : ParseError} {finish : Token}
    (stepped : parser.steps chart (pieces every token) = (last, some reason)) :
    parser.readSplit every finish first [] (before ++ token :: more) =
      (.error reason, parser.noting every chart token shifts) := by
  rw [readSplit_append along.through, readSplit, clean]
  dsimp only
  rw [stepped]
  rfl

/-- A shift that was cut is read again as single `>`, as if it were split. -/
theorem continuePass_cut
    (along : parser.Along splits cut every first chart shifts tape before (token :: known) fresh)
    (split : isSplit cut token) :
    match parser.steps chart (pieces every token) with
    | (last, some reason) => ∃ rest : Tape, rest.rewind = tape.rewind ∧
      parser.continuePass splits chart shifts tape =
        { outcome := .error reason, columns := last.columns, shifts, tape := rest }
    | (last, none) => ∃ rest : Tape,
      rest.Lags parser.typeContext cut (before ++ [token]) known fresh ∧
      parser.continuePass splits chart shifts tape =
        parser.continuePass splits last shifts rest := by
  obtain ⟨shift, among⟩ : token.kind.isRightShift ∧ token.position ∈ cut := by
    simpa [isSplit] using split
  have every' : isSplit every token := by simp [isSplit, shift, along.same, among]
  have parts : pieces every token = singles token := by rw [pieces, if_pos every']
  have cutParts : pieces cut token = singles token := by rw [pieces, if_pos split]
  obtain ⟨read, ahead, source⟩ := tape
  obtain ⟨same, rest, clean, left⟩ := along.lags
  dsimp only at same rest
  rw [List.flatMap_cons, cutParts] at rest
  subst rest
  have replayed := parser.continuePass_replay splits shifts source (singles token) (fun piece member => by
      obtain ⟨i, -, rfl⟩ := List.mem_map.mp member
      exact ⟨_, rfl⟩) chart read (known.flatMap (pieces cut))
  rw [parts]
  rcases stepped : parser.steps chart (singles token) with ⟨last, _ | reason⟩
  · rw [stepped] at replayed
    refine ⟨⟨(singles token).reverse ++ read, known.flatMap (pieces cut), source⟩,
      ⟨?_, rfl, by simpa using clean, left⟩, replayed⟩
    simp [same, cutParts]
  · rw [stepped] at replayed
    obtain ⟨passed, behind, whole, replayed⟩ := replayed
    refine ⟨_, ?_, replayed⟩
    simp [Tape.rewind, whole]

/-- A shift each `>` of which can only close is taken apart, as if it were split from now on. -/
theorem continuePass_closing (ready : parser.Ready) (total : parser.Total)
    (context : parser.typeContext)
    (along : parser.Along splits cut every first chart shifts tape before [] (token :: fresh))
    (apart : ∀ other ∈ before, other.position ≠ token.position) (joined : token.isJoined)
    (shift : token.kind.isRightShift)
    (closes : ∀ i < token.text.length, parser.grammar.Closes
      ((before.flatMap (pieces every)).map (·.kind) ++ List.replicate i .greater)) :
    token.error? = none ∧ ∃ last rest,
      parser.continuePass splits chart shifts tape =
        parser.continuePass splits last shifts rest ∧
      parser.Along splits (token.position :: cut) (token.position :: every) first last shifts rest
        (before ++ [token]) [] fresh := by
  have lags := along.lags
  rw [context] at lags
  obtain ⟨count, left, clean, length, run, next, further⟩ := lags.next_cut joined shift apart
  have split : isSplit (token.position :: every) token := by simp [isSplit, shift]
  have parts : pieces (token.position :: every) token = singles token := by rw [pieces, if_pos split]
  obtain ⟨last, stepped, reads, same⟩ := continuePass_angles ready total context splits shifts
    tape.read along.reads
    (fun i bound => closes i (by omega)) next
  have here : (⟨tape.read, [], tape.source⟩ : Tape) = tape := by
    have ahead : tape.ahead = [] := along.lags.ahead
    rw [← ahead]
  rw [here] at same
  obtain ⟨through, kept⟩ := along.recut apart
  rw [← run] at stepped reads same
  refine ⟨clean, last, _, same, ?_, fun place => ?_, ?_, ?_, ?_, ?_⟩
  · rw [context]
    exact further
  · simp only [List.mem_cons, along.same, or_assoc]
  · rw [readThrough_append, through]
    simp only [Option.bind_some, readThrough, clean, parts, stepped]
    rw [noting_of_split _ _ _ split]
  · rw [List.flatMap_append, kept, List.flatMap_singleton, parts]
    exact reads
  · have old := along.splitRead
    rw [List.append_nil] at old
    exact List.cons_subset.mpr ⟨by simp, List.Subset.trans old (by simp)⟩
  · have old := along.notedRead
    rw [List.append_nil] at old
    exact List.Subset.trans old (by simp)

/-- If it were not split, reading would stop at it, and it would be the one to split next. -/
theorem readSplit_closing (more : List Token) (ready : parser.Ready) (total : parser.Total)
    (along : parser.Along splits cut every first chart shifts tape before known fresh)
    (clean : token.error? = none) (shift : token.kind.isRightShift)
    (unsplit : token.position ∉ every)
    (closes : parser.grammar.Closes ((before.flatMap (pieces every)).map (·.kind)))
    (stuck : ¬ parser.grammar.Viable
      ((before.flatMap (pieces every)).map (·.kind) ++ [token.kind])) (finish : Token) :
    parser.readSplit every finish first [] (before ++ token :: more) =
      (.error (parser.unexpected chart token), token.position :: shifts) := by
  have whole : pieces every token = [token] := by simp [pieces, isSplit, unsplit]
  have refused : parser.step chart token = .error (parser.unexpected chart token) :=
    ((along.reads.step_cases ready total token).resolve_left fun viable => stuck viable.1).2
  have stepped : parser.steps chart (pieces every token) =
      (chart, some (parser.unexpected chart token)) := by
    rw [whole, steps, refused]
  have expected : (parser.expected chart.last).contains .greater := by
    have asked := (insideTypes_iff ready along.reads).mpr closes
    exact (Bool.and_eq_true_iff.mp asked).1
  have absent : every.contains token.position = false := by simpa using unsplit
  have noted : parser.notes every chart token := by
    rw [notes, isSplit, shift, absent, expected]
    rfl
  rw [along.readSplit_stopped clean stepped, noting, if_pos noted]

end Along

/-- The pass has come to its end, or goes on in step behind the tokens before. -/
inductive Moves (parser : Parser α) (splits : List Position) (first : Chart α) (tokens : List Token)
    (place : Position) (Good : List Position → Prop) (before more : List Token) (pass : Pass α) :
    Prop where
  | came (comes : parser.ComesTo splits first tokens place Good pass)
  | goes {cut every : List Position} {chart : Chart α} {shifts : List Position} {tape : Tape}
      {known fresh : List Token} (good : Good every)
      (along : parser.Along splits cut every first chart shifts tape before known fresh)
      (left : known ++ fresh = more ++ [.endOfInput place])
      (same : pass = parser.continuePass splits chart shifts tape)

namespace Along

variable {Good : List Position → Prop}

/-- Where the pass ends as reading does, it has come to that. -/
theorem comesTo_of_ends {pass : Pass α}
    {before' known' fresh' : List Token}
    (along : parser.Along splits cut every first chart shifts tape before known fresh)
    (good : Good every) (lags : rest.Lags parser.typeContext cut before' known' fresh')
    (whole : before' ++ known' ++ fresh' = tokens ++ [Token.endOfInput place])
    (grown : before ++ known ⊆ before' ++ known') (rewound : pass.tape.rewind = rest.rewind)
    (noted : pass.shifts ⊆ (before' ++ known').map (·.position))
    (same : (pass.outcome, pass.shifts) =
      parser.readSplit every (.endOfInput place) first [] tokens) :
    parser.ComesTo splits first tokens place Good pass := by
  refine ⟨every, good, same, fun position member => ?_⟩
  rw [rewound]
  exact poised_rewind lags along.same whole
    (List.Subset.trans along.splitRead (List.map_subset _ grown)) (noted member)

/-- A token at the place of one that is split was read before. -/
theorem mem_known_of_split
    (along : parser.Along splits cut every first chart shifts tape before known fresh)
    (apart : ∀ other ∈ before, other.position ≠ token.position) (split : token.position ∈ every) :
    ∃ other ∈ known, other.position = token.position := by
  obtain ⟨other, member, same⟩ := List.mem_map.mp (along.splitRead split)
  rcases List.mem_append.mp member with old | new
  · exact absurd same (apart other old)
  · exact ⟨other, new, same⟩

/-- At a shift that was cut, the pass stays in step. -/
theorem moves_of_cut
    (along : parser.Along splits cut every first chart shifts tape before known fresh)
    (good : Good every) (whole : tokens = before ++ token :: more)
    (left : known ++ fresh = token :: more ++ [Token.endOfInput place])
    (apart : ∀ other ∈ before, other.position ≠ token.position) (cutHere : isSplit cut token) :
    parser.Moves splits first tokens place Good (before ++ [token]) more
      (parser.continuePass splits chart shifts tape) := by
  obtain ⟨shift, among⟩ : token.kind.isRightShift ∧ token.position ∈ cut := by
    simpa [isSplit] using cutHere
  have listed := (along.same token.position).mpr (.inl among)
  have split : isSplit every token := by simp [isSplit, shift, listed]
  obtain ⟨known, rfl⟩ : ∃ known', known = token :: known' := by
    obtain ⟨_, member, -⟩ := along.mem_known_of_split apart listed
    obtain ⟨first, known, rfl⟩ := List.exists_cons_of_ne_nil (List.ne_nil_of_mem member)
    obtain ⟨rfl, -⟩ := List.cons.inj left
    exact ⟨known, rfl⟩
  have clean : token.error? = none := along.lags.clean token (by simp)
  have replay := along.continuePass_cut cutHere
  rcases stepped : parser.steps chart (pieces every token) with ⟨last, _ | reason⟩
  · rw [stepped] at replay
    obtain ⟨rest, lags, same⟩ := replay
    have further := along.advance clean stepped lags (by simp)
    rw [noting_of_split _ _ _ split] at further
    exact .goes good further (List.cons.inj left).2 same
  · rw [stepped] at replay
    obtain ⟨rest, rewound, same⟩ := replay
    rw [same]
    refine .came (along.comesTo_of_ends good along.lags ?_ (List.Subset.refl _) rewound
      along.notedRead ?_)
    · rw [List.append_assoc, left, whole, List.append_assoc]
    · rw [whole, along.readSplit_stopped clean stepped, noting_of_split _ _ _ split]

/-- At a token that is taken as it is, the pass stays in step. -/
theorem moves_of_whole
    (along : parser.Along splits cut every first chart shifts tape before known fresh)
    (good : Good every) (whole : tokens = before ++ token :: more)
    (left : known ++ fresh = token :: more ++ [Token.endOfInput place])
    (within : token.kind ≠ .endOfInput) (uncut : isSplit cut token = false)
    (single : known = [] → parser.telling chart = some true → token.isJoined = false) :
    parser.Moves splits first tokens place Good (before ++ [token]) more
      (parser.continuePass splits chart shifts tape) := by
  rcases along.next_uncut left uncut single with
    ⟨fault, error, failed⟩ | ⟨clean, rest, known', fresh', ran, lags, left', grown⟩
  · rw [continuePass_error failed]
    refine .came (along.comesTo_of_ends good along.lags ?_ (List.Subset.refl _) rfl
      along.notedRead ?_)
    · rw [List.append_assoc, left, whole, List.append_assoc]
    · rw [whole, readSplit_append along.through, readSplit, error]
  · rw [along.continuePass_whole uncut within ran]
    rcases stepped : parser.steps chart (pieces every token) with ⟨last, _ | reason⟩
    · exact .goes good (along.advance clean stepped lags grown) left' rfl
    · have noted := List.Subset.trans along.notedRead (List.map_subset _ grown)
      refine .came (along.comesTo_of_ends good lags ?_ grown rfl (noting_subset noted (by simp)) ?_)
      · rw [List.append_assoc, left', whole]
        simp
      · rw [whole, along.readSplit_stopped clean stepped]

/-- At the end mark, the pass comes to its end. -/
theorem comesTo_of_end
    (along : parser.Along splits cut every first chart shifts tape before known fresh)
    (good : Good every) (left : known ++ fresh = [.endOfInput place]) :
    parser.ComesTo splits first before place Good
      (parser.continuePass splits chart shifts tape) := by
  obtain ⟨-, rest, known', fresh', ran, lags, ended, grown⟩ :=
    (along.next_uncut left rfl fun _ _ => rfl).resolve_left (by rintro ⟨_, ⟨⟩, -⟩)
  rw [continuePass_end ran rfl]
  refine along.comesTo_of_ends good lags ?_ grown rfl
    (List.Subset.trans along.notedRead (List.map_subset _ grown)) ?_
  · rw [List.append_assoc, ended, List.append_nil]
  · rw [← List.append_nil before, readSplit_append along.through]
    rfl

end Along

section Goes

variable (ready : parser.Ready)
  (distinct : ((tokens ++ [Token.endOfInput place]).map (·.position)).Nodup)
  (inside : ∀ token ∈ tokens, token.kind ≠ .endOfInput) (Good : List Position → Prop)
  (total : parser.typeContext → ∀ every, Good every → ∀ before (token : Token) after,
    tokens = before ++ token :: after → parser.grammar.Cuts every before token → parser.Total)
  (clear : parser.typeContext → ∀ every, Good every → ∀ before (token : Token) after,
    tokens = before ++ token :: after → parser.grammar.Clear every before token)
  (again : parser.typeContext → ∀ every, Good every → ∀ before (token : Token) after,
    tokens = before ++ token :: after → parser.grammar.Cuts every before token →
    ∀ reason shifts, parser.readSplit every (.endOfInput place) first [] tokens =
      (.error reason, token.position :: shifts) →
    (∃ place kind expected, reason = .unexpected place kind expected) →
    Good (token.position :: every))

section Step

include ready total clear again

/-- At a token that the lexer is told to cut, the pass stays in step as well: the token is a shift
that is to be split next, and is split from now on. -/
theorem Along.moves_of_closing
    (along : parser.Along splits cut every first chart shifts tape before []
      (token :: (more ++ [Token.endOfInput place])))
    (good : Good every) (whole : tokens = before ++ token :: more)
    (apart : ∀ other ∈ before, other.position ≠ token.position)
    (told : parser.telling chart = some true) (joined : token.isJoined) :
    parser.Moves splits first tokens place Good (before ++ [token]) more
      (parser.continuePass splits chart shifts tape) := by
  have context : parser.typeContext := by
    by_contra none
    simp [telling, none] at told
  have closes : parser.grammar.Closes ((before.flatMap (pieces every)).map (·.kind)) :=
    (insideTypes_iff ready along.reads).mp (by simpa [telling, context] using told)
  have unsplit : token.position ∉ every := fun listed => by
    obtain ⟨_, ⟨⟩, -⟩ := along.mem_known_of_split apart listed
  have cuts : parser.grammar.Cuts every before token := ⟨joined, unsplit, closes⟩
  obtain ⟨shift, stuck, all⟩ := clear context every good before token more whole cuts
  have total := total context every good before token more whole cuts
  obtain ⟨clean, last, rest, same, further⟩ :=
    along.continuePass_closing ready total context apart joined shift all
  have stops := along.readSplit_closing more ready total clean shift unsplit closes stuck
    (.endOfInput place)
  rw [← whole] at stops
  have better : Good (token.position :: every) :=
    again context every good before token more whole cuts _ _ stops ⟨_, _, _, rfl⟩
  exact .goes better further rfl same

include distinct inside

/-- A pass that is in step stays so at the next token. -/
theorem Along.moves
    (along : parser.Along splits cut every first chart shifts tape before known fresh)
    (good : Good every) (whole : tokens = before ++ token :: more)
    (left : known ++ fresh = token :: more ++ [Token.endOfInput place]) :
    parser.Moves splits first tokens place Good (before ++ [token]) more
      (parser.continuePass splits chart shifts tape) := by
  have apart : ∀ other ∈ before, other.position ≠ token.position := by
    rw [whole, List.append_assoc, List.map_append, List.nodup_append] at distinct
    exact fun other member => distinct.2.2 _ (List.mem_map_of_mem member) _ (by simp)
  by_cases cutHere : isSplit cut token
  · exact along.moves_of_cut good whole left apart cutHere
  by_cases closing : known = [] ∧ parser.telling chart = some true ∧ token.isJoined
  · obtain ⟨rfl, told, joined⟩ := closing
    obtain rfl : fresh = token :: (more ++ [Token.endOfInput place]) := left
    exact along.moves_of_closing ready Good total clear again good whole apart told joined
  · refine along.moves_of_whole good whole left (inside token (by simp [whole]))
      (eq_false_of_ne_true cutHere) fun none told => ?_
    simpa [none, told] using closing

end Step

include ready total distinct inside clear again

/-- A pass that is in step stays so to its end. -/
theorem Along.comesTo
    (along : parser.Along splits cut every first chart shifts tape before known fresh)
    (good : Good every) (whole : tokens = before ++ more)
    (left : known ++ fresh = more ++ [Token.endOfInput place]) :
    parser.ComesTo splits first tokens place Good
      (parser.continuePass splits chart shifts tape) := by
  induction more generalizing before known fresh cut every chart shifts tape with
  | nil =>
    rw [List.append_nil] at whole
    subst whole
    exact along.comesTo_of_end good left
  | cons token more ih =>
    cases along.moves ready distinct inside Good total clear again good whole left with
    | came comes => exact comes
    | goes good further left same =>
      rw [same]
      exact ih further good (by simpa using whole) left

/-- A pass over a text comes to what comes of reading its tokens with the shifts at some places
split, and leaves the tape such that the next pass can be in step as well. -/
theorem Poised.comesTo {column : Column α}
    (closed : parser.close #[] parser.firstColumn = .ok column) (start : first = ⟨#[], column⟩)
    (poised : parser.Poised splits every tape (tokens ++ [Token.endOfInput place]))
    (good : Good every) :
    parser.ComesTo splits first tokens place Good (parser.pass splits tape) := by
  subst start
  obtain ⟨cut, known, fresh, left, along⟩ := poised.along (.start closed)
  rw [pass, closed]
  exact along.comesTo ready distinct inside Good total clear again good rfl left

end Goes

theorem poised_start (parser : Parser α) (source : String) :
    parser.Poised [] [] { source := .ofString source } (Lexer.ofString source).pending :=
  ⟨[], [], _, Tape.lags_start _ _, by simp, rfl, List.nil_subset _⟩

/-! ### Without a cut -/

variable {source : String} {column : Column α} {earlier later : List (Pass α)} {pass : Pass α}

/-- A pass that cuts nothing reads the tokens as they are, apart from the shifts that it splits. -/
theorem Poised.pass_of_uncut (ready : parser.Ready)
    (distinct : ((tokens ++ [Token.endOfInput place]).map (·.position)).Nodup)
    (inside : ∀ token ∈ tokens, token.kind ≠ .endOfInput)
    (none : parser.typeContext → ∀ before (token : Token) after, tokens = before ++ token :: after →
      ¬ parser.grammar.Cuts splits before token)
    (closed : parser.close #[] parser.firstColumn = .ok column)
    (poised : parser.Poised splits splits tape (tokens ++ [Token.endOfInput place])) :
    ((parser.pass splits tape).outcome, (parser.pass splits tape).shifts) =
        parser.readSplit splits (.endOfInput place) ⟨#[], column⟩ [] tokens ∧
      ∀ position ∈ (parser.pass splits tape).shifts,
        parser.Poised (position :: splits) (position :: splits) (parser.pass splits tape).tape.rewind
          (tokens ++ [Token.endOfInput place]) := by
  have uncut (context : parser.typeContext) {every : List Position} {before after : List Token}
      {token : Token} (same : every = splits) (split : tokens = before ++ token :: after) :
      ¬ parser.grammar.Cuts every before token := same ▸ none context before token after split
  obtain ⟨_, rfl, same, further⟩ := poised.comesTo ready distinct inside (· = splits)
    (fun context _ same _ _ _ split cuts => absurd cuts (uncut context same split))
    (fun context _ same _ _ _ split cuts => absurd cuts (uncut context same split))
    (fun context _ same _ _ _ split cuts => absurd cuts (uncut context same split)) closed rfl rfl
  exact ⟨same, further⟩

/-- A pass that is told nothing reads the tokens of the text. -/
theorem pass_of_untold (parser : Parser α) (ready : parser.Ready)
    (untold : parser.typeContext = false)
    (closed : parser.close #[] parser.firstColumn = .ok column)
    (waiting : (Lexer.ofString source).pending = tokens ++ [Token.endOfInput place])
    (inside : ∀ token ∈ tokens, token.kind ≠ .endOfInput)
    (split : parser.passes (.ofString source) = earlier ++ pass :: later) :
    (pass.outcome, pass.shifts) =
      parser.readSplit (splitsAfter earlier) (.endOfInput place) ⟨#[], column⟩ [] tokens := by
  have distinct := (Lexer.ofString source).nodup_pending
  rw [waiting] at distinct
  have reads (splits : List Position) (tape : Tape)
      (poised : parser.Poised splits splits tape (tokens ++ [Token.endOfInput place])) :=
    poised.pass_of_uncut ready distinct inside (by simp [untold]) closed
  obtain ⟨tape, poised, -, rfl⟩ := splits_of_passes
    (fun splits tape => parser.Poised splits splits tape (tokens ++ [Token.endOfInput place]))
    (waiting ▸ parser.poised_start source)
    (fun splits tape position poised retry =>
      (reads splits tape poised).2 position (List.mem_of_head? (Pass.head?_of_retry retry))) split
  exact (reads _ tape poised).1

section Untold

variable {allowed : Token → Prop} (ready : parser.Ready) (total : parser.TotalOn allowed)
  (untold : parser.typeContext = false)
  (waiting : (Lexer.ofString source).pending = tokens ++ [Token.endOfInput place])
  (plain : ∀ token ∈ tokens, token.kind ≠ .endOfInput ∧ token.kind.isRightShift = false)
include ready untold waiting plain

/-- Without being told anything, the parser makes of a text without shifts what reading its tokens
comes to. -/
theorem parse_untold_iff {root : α} (closed : parser.close #[] parser.firstColumn = .ok column) :
    parser.parse (.ofString source) = .ok root ↔
      parser.readOn (.endOfInput place) ⟨#[], column⟩ tokens = .ok root := by
  obtain ⟨first, others, passes⟩ : ∃ first others,
      parser.passes (.ofString source) = [] ++ first :: others := ⟨_, _, rfl⟩
  have reads := parser.pass_of_untold ready untold closed waiting
    (fun token member => (plain token member).1) passes
  rw [readSplit_single _ _ fun token member => (plain token member).2] at reads
  obtain ⟨outcome, shifts⟩ := Prod.mk.inj reads
  obtain rfl : others = [] := by
    by_contra more
    obtain ⟨position, again⟩ := retry_of_further passes more
    have head := Pass.head?_of_retry again
    rw [shifts] at head
    cases head
  rw [← outcome]
  exact ⟨fun parsed => outcome_of_last parsed passes, fun made => parse_of_made passes made⟩

include total

/-- So it makes something of such a text without errors if and only if the grammar accepts its
tokens. -/
theorem exists_parse_untold_iff (clean : ∀ token ∈ tokens, token.error? = none)
    (fit : ∀ token ∈ tokens, allowed token) (fits : allowed (.endOfInput place)) :
    (∃ root, parser.parse (.ofString source) = .ok root) ↔
      parser.grammar.Accepts (tokens.map (·.kind)) := by
  obtain ⟨column, closed⟩ := ChartParser.close_first_succeeds ready total
  have start : parser.Reads [] ⟨#[], column⟩ := .start closed
  rw [← List.nil_append tokens, ← start.exists_readOn_iff_on ready total (by simp) fits rfl fit clean]
  exact exists_congr fun root => parser.parse_untold_iff ready untold waiting plain closed

end Untold

/-! ### Told or not -/

theorem steps_typeContext (parser : Parser α) (typeContext : Bool) (chart : Chart α)
    (more : List Token) :
    ({ parser with typeContext } : Parser α).steps chart more = parser.steps chart more := by
  induction more generalizing chart with
  | nil => rfl
  | cons token more ih =>
    simp only [steps, ih]
    rfl

theorem readSplit_typeContext (parser : Parser α) (typeContext : Bool) (splits : List Position)
    (finish : Token) (chart : Chart α) (shifts : List Position) (more : List Token) :
    ({ parser with typeContext } : Parser α).readSplit splits finish chart shifts more =
      parser.readSplit splits finish chart shifts more := by
  induction more generalizing chart shifts with
  | nil => rfl
  | cons token more ih =>
    simp only [readSplit, steps_typeContext, ih]
    rfl

/-- Each pass before another one says what to split. -/
theorem length_splitsAfter {source : TokenSource}
    (split : parser.passes source = earlier ++ pass :: later) :
    (splitsAfter earlier).length = earlier.length := by
  induction earlier using List.reverseRecOn generalizing pass later with
  | nil => rfl
  | append_singleton earlier before ih =>
    rw [List.append_assoc, List.singleton_append] at split
    obtain ⟨position, again⟩ := retry_of_further split (List.cons_ne_nil _ _)
    rw [splitsAfter_concat again, List.length_cons, List.length_append, ih split]
    rfl

/-- A pass that stops at a token says that the shift it noted down last is to be split. -/
theorem retry_of_stops {position : Position} {kind : Kind} {expected : List Kind}
    (outcome : pass.outcome = .error (.unexpected position kind expected))
    (noted : pass.shifts = place :: shifts) : pass.retry? = some place := by
  rw [Pass.retry?, outcome, noted]
  rfl

/-- The shifts at the places are those that are split before a pass of the parse that comes after
at least so many others. -/
def SplitIn (parser : Parser α) (source : TokenSource) (passes : Nat) (every : List Position) :
    Prop :=
  ∃ earlier pass later, parser.passes source = earlier ++ pass :: later ∧
    every = splitsAfter earlier ∧ passes ≤ earlier.length

section Told

/-- The parser that does not tell the lexer anything. -/
private abbrev untold (parser : Parser α) : Parser α := { parser with typeContext := false }

/-- The parser that tells the lexer where type arguments may close. -/
private abbrev told (parser : Parser α) : Parser α := { parser with typeContext := true }

variable (ready : parser.Ready) (closed : parser.close #[] parser.firstColumn = .ok column)
  (waiting : (Lexer.ofString source).pending = tokens ++ [Token.endOfInput place])
  (inside : ∀ token ∈ tokens, token.kind ≠ .endOfInput) {root : α}
  (parsed : parser.untold.parse (.ofString source) = .ok root)
include ready closed waiting inside parsed

/-- Where reading stops so that another shift is to be split, the parse that is told nothing does
split it. -/
private theorem splitIn_of_stops {passes : Nat} {position : Position} {reason : ParseError}
    (good : parser.untold.SplitIn (.ofString source) passes every)
    (stops : parser.readSplit every (.endOfInput place) ⟨#[], column⟩ [] tokens =
      (.error reason, position :: shifts))
    (unexpected : ∃ place kind expected, reason = .unexpected place kind expected) :
    parser.untold.SplitIn (.ofString source) (passes + 1) (position :: every) := by
  obtain ⟨earlier, pass, later, split, rfl, bound⟩ := good
  obtain ⟨stop, kind, expected, rfl⟩ := unexpected
  have same := parser.untold.pass_of_untold ready rfl closed waiting inside split
  rw [readSplit_typeContext, stops] at same
  obtain ⟨outcome, noted⟩ := Prod.mk.inj same
  have again := retry_of_stops outcome noted
  cases later with
  | nil =>
    rw [outcome_of_last parsed split] at outcome
    cases outcome
  | cons following later =>
    refine ⟨earlier ++ [pass], following, later, by simp [split], ?_, by simpa using bound⟩
    rw [splitsAfter_concat again]

variable (total : parser.Total)
  (clear : ∀ earlier pass later,
    parser.untold.passes (.ofString source) = earlier ++ pass :: later →
    ∀ before (token : Token) after, (Lexer.ofString source).pending = before ++ token :: after →
      parser.grammar.Clear (splitsAfter earlier) before token)
include total clear

/-- A pass that is told comes to what one of the passes comes to that are not, and that pass is at
least as far on among them. -/
private theorem comesTo_of_told {splits every : List Position} {tape : Tape}
    (good : parser.untold.SplitIn (.ofString source) splits.length every)
    (poised : parser.told.Poised splits every tape (tokens ++ [Token.endOfInput place])) :
    parser.told.ComesTo splits ⟨#[], column⟩ tokens place
      (parser.untold.SplitIn (.ofString source) splits.length) (parser.told.pass splits tape) := by
  have distinct := (Lexer.ofString source).nodup_pending
  rw [waiting] at distinct
  have context : parser.told.Ready := ready
  refine poised.comesTo context distinct inside _ (fun _ _ _ _ _ _ _ _ => total) ?_ ?_ closed rfl
    good
  · rintro - every ⟨earlier, pass, later, split, rfl, -⟩ before token after rfl
    exact clear _ _ _ split before token (after ++ [Token.endOfInput place]) (by simp [waiting])
  · intro _ every good _ token _ _ _ reason shifts stops unexpected
    rw [readSplit_typeContext] at stops
    obtain ⟨earlier, pass, later, split, same, bound⟩ :=
      splitIn_of_stops ready closed waiting inside parsed good stops unexpected
    exact ⟨earlier, pass, later, split, same, by omega⟩

end Told

/-- A parse that is told where type arguments may close makes the same of a text as one that is not,
as long as it cuts nothing but shifts each `>` of which can only close. -/
theorem parse_told (parser : Parser α) (ready : parser.Ready) (total : parser.Total) {root : α}
    (parsed : ({ parser with typeContext := false } : Parser α).parse (.ofString source) = .ok root)
    (clear : ∀ earlier pass later,
      ({ parser with typeContext := false } : Parser α).passes (.ofString source) =
        earlier ++ pass :: later →
      ∀ before (token : Token) after, (Lexer.ofString source).pending = before ++ token :: after →
        parser.grammar.Clear (splitsAfter earlier) before token) :
    ({ parser with typeContext := true } : Parser α).parse (.ofString source) = .ok root := by
  obtain ⟨column, closed⟩ := ChartParser.close_first_succeeds ready total
  obtain ⟨tokens, place, waiting, inside⟩ := (Lexer.ofString source).pending_eq_append
  have comes {splits every : List Position} {tape : Tape}
      (good : parser.untold.SplitIn (.ofString source) splits.length every)
      (poised : parser.told.Poised splits every tape (tokens ++ [Token.endOfInput place])) :=
    comesTo_of_told ready closed waiting inside parsed total clear good poised
  obtain ⟨earlier, final, split⟩ :=
    (List.eq_nil_or_concat (parser.told.passes (.ofString source))).resolve_left
      (List.cons_ne_nil _ _)
  rw [List.concat_eq_append] at split
  obtain ⟨tape, ⟨every, good, poised⟩, -, rfl⟩ := splits_of_passes
    (fun splits tape => ∃ every,
      parser.untold.SplitIn (.ofString source) splits.length every ∧
      parser.told.Poised splits every tape (tokens ++ [Token.endOfInput place]))
    ⟨[], ⟨[], _, _, rfl, rfl, Nat.le_refl _⟩, waiting ▸ parser.told.poised_start source⟩
    (fun splits tape position holds retry => by
      obtain ⟨every, good, poised⟩ := holds
      obtain ⟨every', good', same, further⟩ := comes good poised
      have head := Pass.head?_of_retry retry
      obtain ⟨stop, kind, expected, outcome⟩ := Pass.stopsAt_of_retry retry
      obtain ⟨rest, shifts⟩ := List.head?_eq_some_iff.mp head
      rw [outcome, shifts, readSplit_typeContext] at same
      exact ⟨position :: every',
        splitIn_of_stops ready closed waiting inside parsed good' same.symm ⟨_, _, _, rfl⟩,
        further position (List.mem_of_head? head)⟩) split
  obtain ⟨_, ⟨before, pass, later, passes, rfl, bound⟩, same, -⟩ := comes good poised
  have reads := parser.untold.pass_of_untold ready rfl closed waiting inside passes
  rw [readSplit_typeContext] at same reads
  obtain ⟨outcome, shifts⟩ := Prod.mk.inj (same.trans reads.symm)
  -- Otherwise the last pass would ask for another one, and there would be too many of them.
  have done : later = [] := by
    by_contra further
    obtain ⟨position, again⟩ := retry_of_further passes further
    rcases final_of_last split with none | all
    · rw [Pass.retry?, outcome, shifts] at none
      rw [Pass.retry?, none] at again
      cases again
    · have most := length_le_of_passes passes
      have more := List.length_pos_iff.mpr further
      rw [length_splitsAfter split] at bound
      omega
  subst done
  rw [outcome_of_last parsed passes] at outcome
  exact parse_of_made split outcome

end Parser

end JavaFrontend
