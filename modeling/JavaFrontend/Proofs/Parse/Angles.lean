import JavaFrontend.Proofs.Parse.SplitSearch
import JavaFrontend.Proofs.Parse.TypeContext
import JavaFrontend.Proofs.Token.Spacing

/-!
Texts in which every shift closes type arguments. Where `>` can come and no shift can, a pass that
is told so takes each `>` of the text alone, and the passes of a parse that is told nothing come to
split all shifts one after the other. So both parse such a text as if each `>` were a token of its
own (`Parser.parse_of_angles`). Where a shift can come too, both take the tokens of the text as they
are (`Parser.parse_of_whole`).
-/

namespace JavaFrontend

open JavaFrontend.Parser (singles pieces isSplit)

/-! ### Every `>` alone -/

/-- The tokens with each shift as single `>`. -/
def unjoinedAll (tokens : List Token) : List Token :=
  tokens.flatMap fun token => if token.kind.isRightShift then singles token else [token]

@[simp] theorem unjoinedAll_nil : unjoinedAll [] = [] := rfl

/-- What stands among them is no shift: it stood there before, or is a part of one. -/
theorem mem_unjoinedAll {tokens : List Token} {token : Token}
    (member : token ∈ unjoinedAll tokens) :
    token ∈ tokens ∧ token.kind.isRightShift = false ∨ ∃ position, token = .angle position := by
  obtain ⟨whole, among, piece⟩ := List.mem_flatMap.mp member
  split at piece
  · obtain ⟨i, -, rfl⟩ := List.mem_map.mp piece
    exact .inr ⟨_, rfl⟩
  · next single =>
    rw [List.mem_singleton.mp piece]
    exact .inl ⟨among, eq_false_of_ne_true single⟩

theorem unjoinedAll_cons (token : Token) (tokens : List Token) : unjoinedAll (token :: tokens) =
    (if token.kind.isRightShift then singles token else [token]) ++ unjoinedAll tokens := rfl

@[simp] theorem unjoinedAll_append (tokens others : List Token) :
    unjoinedAll (tokens ++ others) = unjoinedAll tokens ++ unjoinedAll others :=
  List.flatMap_append

/-- They are the pieces of the tokens if all shifts are split. -/
theorem flatMap_pieces_eq {splits : List Position} {tokens : List Token}
    (all : ∀ token ∈ tokens, token.kind.isRightShift → token.position ∈ splits) :
    tokens.flatMap (pieces splits) = unjoinedAll tokens := by
  refine List.flatMap_congr fun token member => ?_
  unfold pieces isSplit
  by_cases shift : token.kind.isRightShift
  · simp [shift, all token member shift]
  · simp [shift]

namespace Lexer

variable {lexer rest : Lexer} {token : Token}

/-! ### Texts without `=` -/

/-- The kinds whose spelling begins with `>` and goes on are the shifts, but for those with `=`. -/
private theorem shift_iff_joined : ∀ kind ∈ Kind.fixed, '=' ∉ kind.text.toList →
    (kind.isRightShift ↔ (kind.text.toList.head? == some '>' && kind.text != ">")) := by
  decide

/-- If there is no `=` in the text, what begins with `>` and goes on is a shift. -/
theorem shift_iff_isJoined_next (untold : lexer.inTypes = false) (plain : '=' ∉ lexer.text) :
    lexer.next.1.kind.isRightShift ↔ lexer.next.1.isJoined := by
  obtain ⟨text, position, inTypes⟩ := lexer
  cases untold
  cases text with
  | nil => exact iff_of_false Bool.false_ne_true Bool.false_ne_true
  | cons c text =>
    by_cases angle : c = '>'
    · subst angle
      obtain ⟨kind, more, left, rfl, spelled, -, operator, same⟩ :=
        next_joint (c := '>') rfl text position
      rw [same]
      refine shift_iff_joined kind ?_ ?_
      · revert operator
        cases kind <;> decide
      · rw [spelled]
        exact fun member => plain (by simpa using List.mem_append_left left member)
    · obtain ⟨kind, value, same⟩ := next_cons c text position false
      refine iff_of_false (fun shift => ?_) ?_
      · unfold next at shift
        dsimp only at shift
        cases ok : (Lexeme.scan false c text).outcome with
        | ok found =>
          rw [ok] at shift
          exact angle (Lexeme.eq_of_shift ok shift)
        | error reason =>
          rw [ok] at shift
          cases shift
      · rw [same]
        simp [Token.isJoined, angle]

/-- There is at least a character for each token. -/
theorem length_pending_le (lexer : Lexer) : lexer.pending.length ≤ lexer.text.length + 1 := by
  induction length : lexer.text.length using Nat.strongRecOn generalizing lexer with
  | ind n ih =>
    by_cases none : lexer.text = []
    · rw [pending_end none, List.length_singleton]
      omega
    · have less := length ▸ length_next_lt none
      have later := ih _ less lexer.next.2 rfl
      by_cases trivia : lexer.next.1.kind.isTrivia
      · rw [pending_trivia none trivia]
        omega
      · rw [pending_cons none (eq_false_of_ne_true trivia), List.length_cons]
        omega

theorem shift_iff_isJoined (untold : lexer.inTypes = false) (plain : '=' ∉ lexer.text) :
    ∀ token ∈ lexer.tokens, (token.kind.isRightShift ↔ token.isJoined) := by
  induction length : lexer.text.length using Nat.strongRecOn generalizing lexer with
  | ind n ih =>
    have here := shift_iff_isJoined_next untold plain
    by_cases none : lexer.text = []
    · rw [tokens, if_pos none]
      simpa using here
    · rw [tokens_cons none]
      refine List.forall_mem_cons.mpr ⟨here, ih _ (length ▸ length_next_lt none) ?_ ?_ rfl⟩
      · exact (inTypes_next lexer).trans untold
      · obtain ⟨text, position, inTypes⟩ := lexer
        obtain ⟨c, text, rfl⟩ := List.exists_cons_of_ne_nil none
        obtain ⟨kind, value, same⟩ := next_cons c text position inTypes
        rw [same]
        exact fun member => plain (List.mem_cons_of_mem _ (List.drop_subset _ _ member))

/-! ### Every `>` alone -/

/-- The tokens to come are the next one and those behind it. -/
theorem pending_of_nextSignificant
    (next : (TokenSource.text lexer).nextSignificant = (token, .text rest)) :
    lexer.pending = token :: if token.kind = .endOfInput then [] else rest.pending := by
  induction length : lexer.text.length using Nat.strongRecOn generalizing lexer with
  | ind n ih =>
    rw [TokenSource.nextSignificant] at next
    split at next
    · next trivia =>
      obtain ⟨trivia, more⟩ := Bool.and_eq_true_iff.mp trivia
      have more : lexer.text ≠ [] := by simpa [TokenSource.hasMore, hasMore] using more
      rw [pending_trivia more trivia]
      exact ih _ (length ▸ length_next_lt more) next rfl
    · next significant =>
      have first : lexer.next.1 = token := congrArg Prod.fst next
      have behind : lexer.next.2 = rest := TokenSource.text.inj (congrArg Prod.snd next)
      subst first behind
      by_cases more : lexer.text = []
      · rw [pending_end more, if_pos (lexer.sound_next.2.mpr more)]
        obtain ⟨text, position, inTypes⟩ := lexer
        cases more
        rfl
      · have inside := mt lexer.sound_next.2.mp more
        rw [if_neg inside, pending_cons more]
        simpa [TokenSource.next, TokenSource.hasMore, hasMore, more] using significant

/-- A run of `>` is handed out one by one where type arguments may close. -/
theorem pending_replicate (count : Nat) (text : List Char) (position : Position) :
    (⟨List.replicate count '>' ++ text, position, true⟩ : Lexer).pending =
      Parser.angles position count ++ (⟨text, position.shift count, true⟩ : Lexer).pending := by
  induction count generalizing position with
  | zero => rfl
  | succ count ih =>
    have first := pending_of_nextSignificant
      (TokenSource.nextSignificant_greater position (List.replicate count '>' ++ text))
    rw [if_neg (by simp), ih, Position.shift_shift, Nat.add_comm 1] at first
    rw [Parser.angles_succ, List.cons_append]
    exact first

/-- If nothing begins with `>` and goes on but the shifts, the tokens are the same where type
arguments may close everywhere, but for those. -/
theorem pending_setInTypes {tokens : List Token} (untold : lexer.inTypes = false)
    (waiting : lexer.pending = tokens)
    (shifts : ∀ token ∈ tokens, (token.kind.isRightShift ↔ token.isJoined)) :
    (lexer.setInTypes true).pending = unjoinedAll tokens := by
  induction tokens generalizing lexer with
  | nil =>
    obtain ⟨tokens, place, same, -⟩ := lexer.pending_eq_append
    rw [waiting] at same
    simp at same
  | cons token tokens ih =>
    obtain ⟨here, later⟩ := List.forall_mem_cons.mp shifts
    obtain ⟨rest, handsOut, rfl⟩ := exists_handsOut untold waiting
    rw [unjoinedAll_cons]
    by_cases joined : token.isJoined
    · have shift := here.mpr joined
      have inside : token.kind ≠ .endOfInput := by
        intro ended
        rw [ended] at shift
        cases shift
      rw [if_neg inside] at ih later ⊢
      obtain ⟨-, spelled, more, begins, further, next⟩ := handsOut.joined joined
      obtain ⟨count, written, run⟩ := Parser.singles_eq_angles shift spelled
      obtain rfl : more = List.replicate count '>' := (List.cons.inj (begins.symm.trans written)).2
      rw [List.length_replicate] at further
      have behind := ih handsOut.untold rfl later
      rw [setInTypes, further] at behind
      rw [pending_of_nextSignificant next, if_neg (by simp), pending_replicate,
        Position.shift_shift, Nat.add_comm 1, behind, if_pos shift, run, Parser.angles_succ]
      rfl
    · have next := handsOut.whole true (.inr (eq_false_of_ne_true joined))
      rw [if_neg (mt here.mp joined), pending_of_nextSignificant next]
      by_cases ended : token.kind = .endOfInput
      · simp [ended]
      · rw [if_neg ended] at ih later ⊢
        rw [if_neg ended, ih handsOut.untold rfl later]
        rfl

end Lexer

namespace Lexer

/-- Where every `>` is alone, the lexer hands out what it does if it is told so at every `>`. -/
theorem exists_told {lexer : Lexer} {token : Token} {later : List Token}
    (untold : lexer.inTypes = false)
    (waiting : (lexer.setInTypes true).pending = token :: later) {inTypes : Bool}
    (closing : token.kind = .greater → inTypes = true) :
    ∃ (rest : Lexer) (told : Bool), rest.inTypes = false ∧
      (TokenSource.text (lexer.setInTypes inTypes)).nextSignificant =
        (token, .text (rest.setInTypes told)) ∧
      (token.kind ≠ .endOfInput → (rest.setInTypes true).pending = later) := by
  obtain ⟨first, others, same⟩ : ∃ first others, lexer.pending = first :: others := by
    obtain ⟨tokens, place, same, -⟩ := lexer.pending_eq_append
    exact List.exists_cons_of_ne_nil (by simp [same])
  obtain ⟨rest, handsOut, -⟩ := exists_handsOut untold same
  by_cases joined : first.isJoined
  · obtain ⟨-, -, more, -, -, next⟩ := handsOut.joined joined
    rw [pending_of_nextSignificant next, if_neg (by simp)] at waiting
    obtain ⟨rfl, rfl⟩ := List.cons.inj waiting
    obtain rfl := closing rfl
    exact ⟨⟨more ++ rest.text, first.position.shift 1, false⟩, true, rfl, next, fun _ => rfl⟩
  · have single : first.isJoined = false := eq_false_of_ne_true joined
    rw [pending_of_nextSignificant (handsOut.whole true (.inr single))] at waiting
    obtain ⟨rfl, rfl⟩ := List.cons.inj waiting
    exact ⟨rest, inTypes, handsOut.untold, handsOut.whole inTypes (.inr single),
      fun inside => (if_neg inside).symm⟩

end Lexer

namespace Parser

variable {α : Type} {parser : Parser α} {chart : Chart α} {shifts : List Position}
  {before more tokens : List Token} {place : Position} {source : String}

/-! ### A pass that is told -/

/-- The tape hands out the first token, and the lexer is then in front of the others. -/
private theorem next_told (context : parser.typeContext) {lexer : Lexer} {token : Token}
    {later : List Token} (untold : lexer.inTypes = false)
    (waiting : (lexer.setInTypes true).pending = token :: later) (clean : token.error? = none)
    (closing : token.kind = .greater → parser.insideTypes chart = true) (told : Bool)
    (read : List Token) : ∃ (rest : Lexer) (told' : Bool), rest.inTypes = false ∧
      Tape.next ⟨read, [], .text (lexer.setInTypes told)⟩ (parser.telling chart) =
        .ok (token, ⟨token :: read, [], .text (rest.setInTypes told')⟩) ∧
      (token.kind ≠ .endOfInput → (rest.setInTypes true).pending = later) := by
  obtain ⟨rest, told', still, next, behind⟩ := Lexer.exists_told untold waiting closing
  refine ⟨rest, told', still, ?_, behind⟩
  have asked : (TokenSource.text (lexer.setInTypes told)).setInTypes (parser.insideTypes chart) =
      .text (lexer.setInTypes (parser.insideTypes chart)) := rfl
  rw [telling, if_pos context, Tape.next]
  simp only [Option.elim_some, asked, next, clean]
  rfl

/-- A pass that is told where type arguments may close reads each `>` alone if no shift can come
there. -/
theorem continuePass_told (ready : parser.Ready) (context : parser.typeContext)
    (shifts : List Position) {lexer : Lexer} (untold : lexer.inTypes = false)
    (reads : parser.Reads before chart)
    (waiting : (lexer.setInTypes true).pending = more ++ [Token.endOfInput place])
    (plain : ∀ token ∈ more, token.kind ≠ .endOfInput ∧ token.kind.isRightShift = false ∧
      token.error? = none)
    (closes : ∀ first (token : Token) rest, more = first ++ token :: rest → token.kind = .greater →
      parser.grammar.Closes ((before ++ first).map (·.kind)))
    (told : Bool) (read : List Token) :
    let pass := parser.continuePass [] chart shifts ⟨read, [], .text (lexer.setInTypes told)⟩
    pass.outcome = parser.readOn (.endOfInput place) chart more ∧ pass.shifts = shifts := by
  induction more generalizing lexer before chart read told with
  | nil =>
    obtain ⟨rest, told', -, ran, -⟩ :=
      next_told context untold waiting rfl (by simp [Token.endOfInput]) told read
    rw [continuePass_end ran rfl]
    exact ⟨rfl, rfl⟩
  | cons token more ih =>
    obtain ⟨⟨inside, single, clean⟩, later⟩ := List.forall_mem_cons.mp plain
    have closing (greater : token.kind = .greater) : parser.insideTypes chart := by
      rw [insideTypes_iff ready reads]
      simpa using closes [] token more rfl greater
    obtain ⟨rest, told', still, ran, behind⟩ :=
      next_told context untold waiting clean closing told read
    have unnoted : parser.noting [] chart token shifts = shifts := by simp [noting, notes, single]
    rw [continuePass_token ran inside, steps_pieces single, readOn, clean, unnoted]
    cases stepped : parser.step chart token with
    | error reason => exact ⟨rfl, rfl⟩
    | ok next =>
      refine ih still (reads.step stepped) (behind inside) later (fun first other rest same => ?_)
        told' _
      have further := closes (token :: first) other rest (congrArg (List.cons token) same)
      rwa [List.append_cons] at further

/-- There is no other pass then. -/
theorem parse_of_told (ready : parser.Ready) (context : parser.typeContext) {column : Column α}
    {root : α} (closed : parser.close #[] parser.firstColumn = .ok column)
    (waiting : ((Lexer.ofString source).setInTypes true).pending = more ++ [Token.endOfInput place])
    (plain : ∀ token ∈ more, token.kind ≠ .endOfInput ∧ token.kind.isRightShift = false ∧
      token.error? = none)
    (closes : ∀ first (token : Token) rest, more = first ++ token :: rest → token.kind = .greater →
      parser.grammar.Closes (first.map (·.kind)))
    (made : parser.readOn (.endOfInput place) ⟨#[], column⟩ more = .ok root) :
    parser.parse (.ofString source) = .ok root := by
  have untold : (Lexer.ofString source).inTypes = false := rfl
  obtain ⟨outcome, shifts⟩ :=
    continuePass_told ready context [] untold (.start closed) waiting plain closes false []
  have first : parser.pass [] { source := .ofString source } =
      parser.continuePass [] ⟨#[], column⟩ []
        ⟨[], [], .text ((Lexer.ofString source).setInTypes false)⟩ := by
    rw [pass, closed]
    rfl
  rw [← first] at outcome shifts
  rw [parse_of_final, outcome, made]
  rw [Pass.retry?, outcome, made]

/-! ### Passes that are told nothing -/

section Untold

variable {allowed : Token → Prop} {splits : List Position} {finish : Token}

/-- Viable tokens are all read. -/
theorem Reads.steps_of_viable (ready : parser.Ready) (total : parser.TotalOn allowed)
    (fit : ∀ token ∈ before ++ more, allowed token) (reads : parser.Reads before chart)
    (viable : parser.grammar.Viable ((before ++ more).map (·.kind))) :
    ∃ next, parser.steps chart more = (next, none) ∧ parser.Reads (before ++ more) next := by
  induction more generalizing before chart with
  | nil => exact ⟨chart, rfl, by rwa [List.append_nil]⟩
  | cons token more ih =>
    rw [List.append_cons] at fit viable ⊢
    have clean (token : Token) (member : token ∈ before) : allowed token :=
      fit token (by simp [member])
    rcases reads.step_cases_on ready total clean (fit token (by simp)) with
      ⟨-, next, ran⟩ | ⟨stuck, -⟩
    · rw [Parser.steps, ran]
      exact ih fit (reads.step ran) viable
    · rw [List.map_append, List.map_append] at viable
      exact absurd viable.of_append stuck

theorem singles_eq_cons (token : Token) :
    ∃ rest, singles token = .angle token.position :: rest := by
  obtain ⟨count, size⟩ := Nat.exists_eq_succ_of_ne_zero
    (Nat.ne_of_gt (Nat.lt_of_lt_of_le Nat.one_pos (Nat.le_max_left 1 token.text.utf8ByteSize)))
  rw [singles, size, List.range_succ_eq_map]
  exact ⟨_, rfl⟩

/-- Where no shift can come but single `>` can, reading the tokens stops at the first shift that is
not split, and that is noted down. -/
theorem Reads.readSplit_stops (ready : parser.Ready) (total : parser.TotalOn allowed)
    (reads : parser.Reads before chart) (clean : ∀ token ∈ more, token.error? = none)
    (fit : ∀ token ∈ before ++ unjoinedAll more, allowed token)
    (fits : ∀ token ∈ more, allowed token)
    (viable : parser.grammar.Viable ((before ++ unjoinedAll more).map (·.kind)))
    (stuck : ∀ first (token : Token) rest, more = first ++ token :: rest → token.kind.isRightShift →
      ¬ parser.grammar.Viable ((before ++ unjoinedAll first).map (·.kind) ++ [token.kind]))
    (unsplit : ∃ token ∈ more, token.kind.isRightShift ∧ token.position ∉ splits)
    (finish : Token) (shifts : List Position) :
    ∃ place position kind expected noted,
      parser.readSplit splits finish chart shifts more =
        (.error (.unexpected position kind expected), place :: noted) := by
  induction more generalizing before chart shifts with
  | nil => simp at unsplit
  | cons token more ih =>
    obtain ⟨here, later⟩ := List.forall_mem_cons.mp clean
    obtain ⟨fitsHere, fitsLater⟩ := List.forall_mem_cons.mp fits
    rw [readSplit, here]
    by_cases stops : token.kind.isRightShift ∧ token.position ∉ splits
    · obtain ⟨shift, apart⟩ := stops
      have whole : isSplit splits token = false := by simp [isSplit, shift, apart]
      have angle : Kind.greater ∈ parser.expected chart.last := by
        obtain ⟨rest, parts⟩ := singles_eq_cons token
        rw [unjoinedAll_cons, if_pos shift, parts, List.cons_append, List.append_cons,
          List.map_append] at viable
        have begins := viable.of_append
        rw [List.map_append] at begins
        exact ((reads.exact ready).mem_expected ready (reads.last ready)).mpr begins
      have noted : parser.notes splits chart token := by simp [notes, shift, whole, angle]
      have before' (token : Token) (member : token ∈ before) : allowed token :=
        fit token (List.mem_append_left _ member)
      obtain ⟨-, refused⟩ := (reads.step_cases_on ready total before' fitsHere).resolve_left
        fun fitting => stuck [] token more rfl shift (by simpa using fitting.1)
      have stepped : parser.steps chart (pieces splits token) =
          (chart, some (parser.unexpected chart token)) := by
        simp [pieces, whole, Parser.steps, refused]
      dsimp only
      rw [stepped, noted]
      exact ⟨_, _, _, _, _, rfl⟩
    · have parts : pieces splits token =
          if token.kind.isRightShift then singles token else [token] := by
        unfold pieces isSplit
        by_cases shift : token.kind.isRightShift
        · simp [shift, not_and_not_right.mp stops shift]
        · simp [shift]
      rw [unjoinedAll_cons, ← parts, ← List.append_assoc] at fit viable
      have part : parser.grammar.Viable ((before ++ pieces splits token).map (·.kind)) := by
        rw [List.map_append] at viable
        exact viable.of_append
      obtain ⟨next, stepped, further⟩ := reads.steps_of_viable ready total
        (fun token member => fit token (List.mem_append_left _ member)) part
      dsimp only
      rw [stepped]
      refine ih further later fit fitsLater viable (fun first other rest same shift => ?_) ?_ _
      · have stuck := stuck (token :: first) other rest (congrArg (List.cons token) same) shift
        rwa [unjoinedAll_cons, ← parts, ← List.append_assoc] at stuck
      · obtain ⟨other, member, shift, apart⟩ := unsplit
        rcases List.mem_cons.mp member with rfl | among
        · exact absurd ⟨shift, apart⟩ stops
        · exact ⟨other, among, shift, apart⟩

/-- The shifts that are split before a pass are different shifts of the text. -/
theorem splitsAfter_untold {earlier later : List (Pass α)} {pass : Pass α} {column : Column α}
    (ready : parser.Ready) (untold : parser.typeContext = false)
    (closed : parser.close #[] parser.firstColumn = .ok column)
    (waiting : (Lexer.ofString source).pending = tokens ++ [Token.endOfInput place])
    (inside : ∀ token ∈ tokens, token.kind ≠ .endOfInput)
    (split : parser.passes (.ofString source) = earlier ++ pass :: later) :
    (splitsAfter earlier).Nodup ∧ splitsAfter earlier ⊆ tokens.map (·.position) := by
  induction earlier using List.reverseRecOn generalizing pass later with
  | nil => exact ⟨List.nodup_nil, List.nil_subset _⟩
  | append_singleton earlier before ih =>
    rw [List.append_assoc, List.singleton_append] at split
    obtain ⟨distinct, among⟩ := ih split
    obtain ⟨position, again⟩ := retry_of_further split (List.cons_ne_nil _ _)
    have same := parser.pass_of_untold ready untold closed waiting inside split
    have noted := List.mem_of_head? (Pass.head?_of_retry again)
    rw [show before.shifts = _ from congrArg Prod.snd same] at noted
    obtain ⟨fresh, token, member, -, rfl⟩ :=
      (mem_shifts_readSplit _ _ _ _ _ _ noted).resolve_left List.not_mem_nil
    rw [splitsAfter_concat again]
    exact ⟨List.nodup_cons.mpr ⟨fresh, distinct⟩,
      List.cons_subset.mpr ⟨List.mem_map_of_mem member, among⟩⟩

/-- They come to split all shifts, as long as reading the tokens stops at one that is not split. -/
theorem parse_of_untold {root : α} {column : Column α} (ready : parser.Ready)
    (untold : parser.typeContext = false)
    (closed : parser.close #[] parser.firstColumn = .ok column)
    (waiting : (Lexer.ofString source).pending = tokens ++ [Token.endOfInput place])
    (clean : ∀ token ∈ tokens, token.kind ≠ .endOfInput ∧ token.error? = none)
    (stops : ∀ splits, (∃ token ∈ tokens, token.kind.isRightShift ∧ token.position ∉ splits) →
      ∃ place' position kind expected noted,
        parser.readSplit splits (.endOfInput place) ⟨#[], column⟩ [] tokens =
          (.error (.unexpected position kind expected), place' :: noted))
    (made : parser.readOn (.endOfInput place) ⟨#[], column⟩ (unjoinedAll tokens) = .ok root) :
    parser.parse (.ofString source) = .ok root := by
  obtain ⟨earlier, last, split⟩ :=
    (List.eq_nil_or_concat (parser.passes (.ofString source))).resolve_left (List.cons_ne_nil _ _)
  rw [List.concat_eq_append] at split
  have inside (token : Token) (member : token ∈ tokens) := (clean token member).1
  have same := parser.pass_of_untold ready untold closed waiting inside split
  by_cases unsplit : ∃ token ∈ tokens, token.kind.isRightShift ∧
      token.position ∉ splitsAfter earlier
  · -- The pass would ask for another one, and there are as many as there are shifts.
    exfalso
    obtain ⟨position, stop, kind, expected, noted, read⟩ := stops _ unsplit
    obtain ⟨outcome, shifts⟩ := Prod.mk.inj (same.trans read)
    have again := retry_of_stops outcome shifts
    rcases final_of_last split with none | all
    · rw [again] at none
      cases none
    · obtain ⟨distinct, among⟩ := splitsAfter_untold ready untold closed waiting inside split
      obtain ⟨token, member, -, apart⟩ := unsplit
      have more : (token.position :: splitsAfter earlier).length ≤ tokens.length := by
        simpa using ((List.nodup_cons.mpr ⟨apart, distinct⟩).subperm
          (List.cons_subset.mpr ⟨List.mem_map_of_mem member, among⟩)).length_le
      have few := (Lexer.ofString source).length_pending_le
      rw [waiting, List.length_append, List.length_singleton] at few
      rw [List.length_cons, length_splitsAfter split, all] at more
      change _ ≤ (TokenSource.ofString source).remaining + 1 at few
      omega
  · have all (token : Token) (member : token ∈ tokens) (shift : token.kind.isRightShift) :
        token.position ∈ splitsAfter earlier := by
      by_contra apart
      exact unsplit ⟨token, member, shift, apart⟩
    refine parse_of_made split ((congrArg Prod.fst same).trans ?_)
    rw [readSplit_eq_readOn _ _ fun token member _ => (clean token member).2, flatMap_pieces_eq all,
      made]

end Untold

/-! ### Both -/

/-- A text that is accepted with each `>` alone, where no shift can come in place of one, is parsed
so whether the parser tells the lexer where type arguments may close or not. -/
theorem parse_of_angles {allowed : Token → Prop} (ready : parser.Ready)
    (total : parser.TotalOn allowed)
    (waiting : (Lexer.ofString source).pending = tokens ++ [Token.endOfInput place])
    (plain : ∀ token ∈ tokens, token.kind ≠ .endOfInput ∧ token.error? = none ∧
      (token.kind.isRightShift ↔ token.isJoined))
    (fits : ∀ token ∈ tokens, allowed token) (fit : ∀ token ∈ unjoinedAll tokens, allowed token)
    (ended : allowed (.endOfInput place))
    (accepted : parser.grammar.Accepts ((unjoinedAll tokens).map (·.kind)))
    (stuck : ∀ first (token : Token) rest, unjoinedAll tokens = first ++ token :: rest →
      token.kind = .greater → ∀ kind : Kind, kind.isRightShift →
        ¬ parser.grammar.Viable (first.map (·.kind) ++ [kind])) :
    ∃ root passed, parser.parse (.ofString source) = .ok root ∧ passed <+: [.endOfInput place] ∧
      parser.Builds [.rule parser.grammar.start] (unjoinedAll tokens ++ passed) [root] := by
  obtain ⟨column, closed⟩ := ChartParser.close_first_succeeds ready total
  have start : parser.Reads [] ⟨#[], column⟩ := .start closed
  have single (token : Token) (member : token ∈ unjoinedAll tokens) :
      token.kind ≠ .endOfInput ∧ token.kind.isRightShift = false ∧ token.error? = none := by
    rcases mem_unjoinedAll member with ⟨among, single⟩ | ⟨position, rfl⟩
    · exact ⟨(plain token among).1, single, (plain token among).2.1⟩
    · exact ⟨by simp [Token.angle], rfl, rfl⟩
  obtain ⟨root, made⟩ := (start.exists_readOn_iff_on ready total (by simp) ended rfl fit
    fun token member => (single token member).2.2).mpr accepted
  obtain ⟨passed, begins, builds⟩ :=
    start.builds_of_readOn_on ready total (by simp) ended rfl fit made
  refine ⟨root, passed, ?_, begins, builds⟩
  have viable := Grammar.Accepts.viable accepted
  cases context : parser.typeContext with
  | true =>
    have waiting' : ((Lexer.ofString source).setInTypes true).pending =
        unjoinedAll tokens ++ [Token.endOfInput place] := by
      rw [Lexer.pending_setInTypes rfl waiting, unjoinedAll_append]
      · rfl
      · exact List.forall_mem_append.mpr
          ⟨fun token member => (plain token member).2.2, by simp; rfl⟩
    refine parse_of_told ready context closed waiting' single
      (fun first token rest same greater => ?_) made
    refine ⟨?_, stuck first token rest same greater .rightShift rfl⟩
    rw [same, List.append_cons, List.map_append] at viable
    simpa [greater] using viable.of_append
  | false =>
    refine parse_of_untold ready context closed waiting
      (fun token member => ⟨(plain token member).1, (plain token member).2.1⟩)
      (fun splits unsplit => ?_) made
    refine start.readSplit_stops ready total (fun token member => (plain token member).2.1)
      (by simpa using fit) fits (by simpa using viable) (fun first token rest same shift => ?_)
      unsplit _ _
    obtain ⟨more, parts⟩ := singles_eq_cons token
    have begins : unjoinedAll tokens = unjoinedAll first ++ .angle token.position ::
        (more ++ unjoinedAll rest) := by
      rw [same, unjoinedAll_append, unjoinedAll_cons, if_pos shift, parts, List.cons_append]
    exact stuck _ _ _ begins rfl token.kind shift

/-! ### No `>` alone -/

/-- A text that is accepted with its tokens as they are is parsed so whether the parser tells the
lexer where type arguments may close or not, as long as a shift can come wherever a token begins
with `>` and goes on. -/
theorem parse_of_whole {allowed : Token → Prop} (ready : parser.Ready)
    (total : parser.TotalOn allowed)
    (waiting : (Lexer.ofString source).pending = tokens ++ [Token.endOfInput place])
    (plain : ∀ token ∈ tokens, token.kind ≠ .endOfInput ∧ token.error? = none)
    (fits : ∀ token ∈ tokens, allowed token) (ended : allowed (.endOfInput place))
    (accepted : parser.grammar.Accepts (tokens.map (·.kind)))
    (shifts : ∀ first (token : Token) rest, tokens = first ++ token :: rest → token.isJoined →
      parser.grammar.Viable (first.map (·.kind) ++ [Kind.rightShift])) :
    ∃ root passed, parser.parse (.ofString source) = .ok root ∧ passed <+: [.endOfInput place] ∧
      parser.Builds [.rule parser.grammar.start] (tokens ++ passed) [root] := by
  obtain ⟨column, closed⟩ := ChartParser.close_first_succeeds ready total
  have start : parser.Reads [] ⟨#[], column⟩ := .start closed
  have clean (token : Token) (member : token ∈ tokens) := (plain token member).2
  obtain ⟨root, made⟩ :=
    (start.exists_readOn_iff_on ready total (by simp) ended rfl fits clean).mpr accepted
  obtain ⟨passed, begins, builds⟩ :=
    start.builds_of_readOn_on ready total (by simp) ended rfl fits made
  refine ⟨root, passed, ?_, begins, builds⟩
  have whole (tokens : List Token) : tokens.flatMap (pieces []) = tokens := by
    have single : ∀ token ∈ tokens, pieces [] token = [token] := by simp [pieces, isSplit]
    rw [List.flatMap_congr single, List.flatMap_singleton']
  have distinct := (Lexer.ofString source).nodup_pending
  rw [waiting] at distinct
  have poised := parser.poised_start source
  rw [waiting] at poised
  have uncut (first : List Token) (token : Token) (rest : List Token)
      (split : tokens = first ++ token :: rest) : ¬ parser.grammar.Cuts [] first token := by
    rintro ⟨joined, -, -, stuck⟩
    rw [whole] at stuck
    exact stuck (shifts first token rest split joined)
  obtain ⟨same, -⟩ := poised.pass_of_uncut ready distinct
    (fun token member => (plain token member).1) (fun _ => uncut) closed
  obtain outcome : (parser.pass [] { source := .ofString source }).outcome = _ :=
    congrArg Prod.fst same
  rw [readSplit_eq_readOn _ _ fun token member _ => clean token member, whole, made] at outcome
  rw [parse_of_final, outcome]
  rw [Pass.retry?, outcome]

end Parser

end JavaFrontend
