import JavaFrontend.Proofs.Parse.Tapes
import JavaFrontend.Proofs.Token.Context

/-!
Tapes over texts. A pass that is told where type arguments may close takes some shifts of the text
as single `>` on its own. Apart from those, its tape hands out the tokens that the text has without
being told anything (`Tape.Lags`).
-/

namespace JavaFrontend

variable {α : Type}

namespace Parser

variable {parser : Parser α} {splits others : List Position} {chart last : Chart α}
  {shifts noted : List Position} {token : Token} {tokens more : List Token} {finish : Token}

/-! ### One token of a pass -/

/-- The shifts that are noted down once the token is read. -/
def noting (parser : Parser α) (splits : List Position) (chart : Chart α) (token : Token)
    (shifts : List Position) : List Position :=
  if parser.notes splits chart token then token.position :: shifts else shifts

/-- What the tape is told behind the chart. -/
def telling (parser : Parser α) (chart : Chart α) : Option Bool :=
  if parser.typeContext then some (parser.insideTypes chart) else none

section Tape

variable {tape rest : Tape} {reason : ParseError}

theorem continuePass_error (failed : tape.next (parser.telling chart) = .error reason) :
    parser.continuePass splits chart shifts tape =
      { outcome := .error reason, columns := chart.columns, shifts, tape } := by
  rw [continuePass]
  split
  · next found => cases failed.symm.trans found; rfl
  · next found => cases failed.symm.trans found

theorem continuePass_end (ran : tape.next (parser.telling chart) = .ok (token, rest))
    (ended : token.kind = .endOfInput) :
    parser.continuePass splits chart shifts tape =
      { outcome := (parser.finish chart token).1, columns := (parser.finish chart token).2.columns,
        shifts, tape := rest } := by
  rw [continuePass]
  split
  · next found => cases ran.symm.trans found
  · next found =>
    cases ran.symm.trans found
    rw [dif_pos ended]

theorem continuePass_token (ran : tape.next (parser.telling chart) = .ok (token, rest))
    (inside : token.kind ≠ .endOfInput) :
    parser.continuePass splits chart shifts tape =
      match parser.steps chart (pieces splits token) with
      | (last, some reason) =>
        { outcome := .error reason, columns := last.columns,
          shifts := parser.noting splits chart token shifts, tape := rest }
      | (last, none) =>
        parser.continuePass splits last (parser.noting splits chart token shifts) rest := by
  rw [continuePass]
  split
  · next found => cases ran.symm.trans found
  · next found =>
    cases ran.symm.trans found
    rw [dif_neg inside]
    rfl

end Tape

/-! ### Reading some of the tokens -/

/-- The chart behind the tokens, if they are all read, and the shifts that are noted down. -/
def readThrough (parser : Parser α) (splits : List Position) (chart : Chart α)
    (shifts : List Position) : List Token → Option (Chart α × List Position)
  | [] => some (chart, shifts)
  | token :: rest =>
    match token.error?, parser.steps chart (pieces splits token) with
    | none, (next, none) =>
      parser.readThrough splits next (parser.noting splits chart token shifts) rest
    | _, _ => none

theorem readThrough_append (parser : Parser α) (splits : List Position) (chart : Chart α)
    (shifts : List Position) (tokens more : List Token) :
    parser.readThrough splits chart shifts (tokens ++ more) =
      (parser.readThrough splits chart shifts tokens).bind fun (last, noted) =>
        parser.readThrough splits last noted more := by
  induction tokens generalizing chart shifts with
  | nil => rfl
  | cons token tokens ih =>
    rw [List.cons_append, readThrough, readThrough]
    split
    · exact ih _ _
    · rfl

/-- Reading goes on from what was read. -/
theorem readSplit_append
    (read : parser.readThrough splits chart shifts tokens = some (last, noted)) :
    parser.readSplit splits finish chart shifts (tokens ++ more) =
      parser.readSplit splits finish last noted more := by
  induction tokens generalizing chart shifts with
  | nil =>
    cases read
    rfl
  | cons token tokens ih =>
    rw [readThrough] at read
    split at read
    · next clean stepped =>
      rw [List.cons_append, readSplit, clean]
      dsimp only
      rw [stepped]
      exact ih read
    · cases read

theorem isSplit_congr (same : token.position ∈ splits ↔ token.position ∈ others) :
    isSplit splits token = isSplit others token := by
  simp [isSplit, same]

/-- Only the places of the tokens that are read make a difference. -/
theorem readThrough_congr
    (same : ∀ token ∈ tokens, (token.position ∈ splits ↔ token.position ∈ others)) :
    parser.readThrough splits chart shifts tokens =
      parser.readThrough others chart shifts tokens := by
  induction tokens generalizing chart shifts with
  | nil => rfl
  | cons token tokens ih =>
    obtain ⟨here, later⟩ := List.forall_mem_cons.mp same
    have split := isSplit_congr here
    rw [readThrough, readThrough, pieces, pieces, noting, noting, notes, notes, split]
    split
    · exact ih later
    · rfl

end Parser

/-! ### What a tape over a text hands out -/

namespace Tape

open JavaFrontend.Parser (pieces isSplit)

/-- The tape has handed out the tokens before and is to hand out the known ones again, the shifts at
the places as single `>`, and then those that are still in the text. Without context, the lexer was
told nothing. -/
structure Lags (context : Bool) (cut : List Position) (tape : Tape)
    (before known fresh : List Token) : Prop where
  read : tape.read.reverse = before.flatMap (pieces cut)
  ahead : tape.ahead = known.flatMap (pieces cut)
  clean : ∀ token ∈ before ++ known, token.error? = none
  left : fresh = [] ∨ ∃ (lexer : Lexer) (told : Bool), lexer.inTypes = false ∧
    (context = false → told = false) ∧ tape.source = .text (lexer.setInTypes told) ∧
    lexer.pending = fresh

variable {context : Bool} {cut : List Position} {tape : Tape} {before known fresh : List Token}
  {token : Token} {inTypes : Option Bool}

theorem lags_start (context : Bool) (source : String) :
    Lags context [] { source := .ofString source } [] [] (Lexer.ofString source).pending :=
  ⟨rfl, rfl, by simp, .inr ⟨_, false, rfl, fun _ => rfl, rfl, rfl⟩⟩

theorem Lags.rewind (lags : tape.Lags context cut before known fresh) :
    tape.rewind.Lags context cut [] (before ++ known) fresh := by
  refine ⟨rfl, ?_, lags.clean, lags.left⟩
  rw [List.flatMap_append, ← lags.read, ← lags.ahead]
  rfl

/-- A known token that is not cut is handed out again. -/
theorem Lags.next_known (lags : tape.Lags context cut before (token :: known) fresh)
    (whole : isSplit cut token = false) (inTypes : Option Bool) :
    ∃ rest, tape.next inTypes = .ok (token, rest) ∧
      rest.Lags context cut (before ++ [token]) known fresh := by
  have alone : pieces cut token = [token] := by rw [pieces, whole]; rfl
  obtain ⟨read, ahead, source⟩ := tape
  obtain ⟨same, among, clean, left⟩ := lags
  dsimp only at same among
  rw [List.flatMap_cons, alone] at among
  subst among
  exact ⟨_, rfl, by simp [same, alone], rfl, by simpa using clean, left⟩

/-- A token that is still in the text is handed out unless it is an error, or begins with `>` where
type arguments may close. -/
theorem Lags.next_fresh (lags : tape.Lags context cut before [] (token :: fresh))
    (whole : isSplit cut token = false) (told : inTypes.isSome = context)
    (single : inTypes = some true → token.isJoined = false) :
    (∃ fault, token.error? = some fault ∧
      tape.next inTypes = .error (.lexical token.position fault)) ∨
    token.error? = none ∧
      ∃ rest, tape.next inTypes = .ok (token, rest) ∧
        rest.Lags context cut (before ++ [token]) [] fresh := by
  have alone : pieces cut token = [token] := by rw [pieces, whole]; rfl
  obtain ⟨read, ahead, source⟩ := tape
  obtain ⟨same, among, clean, left⟩ := lags
  dsimp only at same among
  subst among
  obtain ⟨lexer, last, untold, kept, rfl, waiting⟩ := left.resolve_left (List.cons_ne_nil _ _)
  obtain ⟨rest, handsOut, rfl⟩ := Lexer.exists_handsOut untold waiting
  -- What the lexer goes by is what it is told now, if anything, and otherwise what it was told.
  have asked : inTypes.elim (.text (lexer.setInTypes last))
      (TokenSource.text (lexer.setInTypes last)).setInTypes =
        .text (lexer.setInTypes (inTypes.getD last)) := by
    cases inTypes <;> rfl
  have taken := handsOut.whole (inTypes.getD last) (by
    cases inTypes with
    | none => exact .inl (kept told.symm)
    | some inTypes =>
      cases inTypes with
      | false => exact .inl rfl
      | true => exact .inr (single rfl))
  unfold Tape.next
  dsimp only [List.flatMap_nil]
  rw [asked, taken]
  cases error : token.error? with
  | some fault => exact .inl ⟨fault, rfl, rfl⟩
  | none =>
    refine .inr ⟨rfl, _, rfl, by simp [same, alone], rfl, ?_, ?_⟩
    · rw [List.append_nil] at clean ⊢
      exact List.forall_mem_append.mpr ⟨clean, by simpa using error⟩
    · by_cases ended : token.kind = .endOfInput
      · exact .inl (if_pos ended)
      · refine .inr ⟨rest, _, handsOut.untold, fun none => ?_, rfl, (if_neg ended).symm⟩
        subst none
        rw [Option.isSome_eq_false_iff, Option.isNone_iff_eq_none] at told
        rw [told]
        exact kept rfl

end Tape

/-! ### Where type arguments close -/

/-- Behind the kinds a single `>` can come, and no shift. -/
def Grammar.Closes (grammar : Grammar) (kinds : List Kind) : Prop :=
  grammar.Viable (kinds ++ [.greater]) ∧ ¬ grammar.Viable (kinds ++ [.rightShift])

namespace Parser

/-- Single `>` in successive columns. -/
def angles (position : Position) (count : Nat) : List Token :=
  (List.range count).map fun i => { kind := .greater, text := ">", position := position.shift i }

theorem angles_succ (position : Position) (count : Nat) :
    angles position (count + 1) =
      { kind := .greater, text := ">", position } :: angles (position.shift 1) count := by
  simp only [angles, List.range_succ_eq_map, List.map_cons, List.map_map]
  refine congrArg _ (List.map_congr_left fun i _ => ?_)
  simp [Position.shift_shift, Nat.add_comm 1]

variable {parser : Parser α} {splits : List Position} {chart : Chart α} {shifts : List Position}
  {tokens : List Token} {position : Position} {source : TokenSource} {read : List Token}

theorem insideTypes_iff (ready : parser.Ready) (reads : parser.Reads tokens chart) :
    parser.insideTypes chart ↔ parser.grammar.Closes (tokens.map (·.kind)) := by
  have expects (kind : Kind) : kind ∈ parser.expected chart.last ↔
      parser.grammar.Viable (tokens.map (·.kind) ++ [kind]) :=
    (reads.exact ready).mem_expected ready (reads.last ready)
  simp [insideTypes, Grammar.Closes, ← expects]

/-- Single `>` are read as they are, and not noted down. -/
private theorem continuePass_angle {rest : TokenSource} {ahead : List Token} {tape : Tape}
    (ran : tape.next (parser.telling chart) =
      .ok ({ kind := .greater, text := ">", position }, ⟨read, ahead, rest⟩)) :
    parser.continuePass splits chart shifts tape =
      match parser.step chart { kind := .greater, text := ">", position } with
      | .ok next => parser.continuePass splits next shifts ⟨read, ahead, rest⟩
      | .error reason =>
        { outcome := .error reason, columns := chart.columns, shifts, tape := ⟨read, ahead, rest⟩ } := by
  rw [continuePass_token ran (by simp)]
  simp only [pieces, isSplit, noting, notes, Kind.isRightShift, Bool.false_and, steps, if_false,
    Bool.false_eq_true]
  cases parser.step chart { kind := .greater, text := ">", position } <;> rfl

section Total

variable (ready : parser.Ready) (total : parser.Total) (context : parser.typeContext)
include ready total context

/-- Where only a single `>` can come, one is taken from the text. -/
theorem continuePass_closing (splits : List Position) (shifts : List Position)
    (read : List Token) {rest : TokenSource} (reads : parser.Reads tokens chart)
    (closes : parser.grammar.Closes (tokens.map (·.kind)))
    (next : (source.setInTypes true).nextSignificant =
      ({ kind := .greater, text := ">", position }, rest)) :
    ∃ last, parser.step chart { kind := .greater, text := ">", position } = .ok last ∧
      parser.Reads (tokens ++ [{ kind := .greater, text := ">", position }]) last ∧
      parser.continuePass splits chart shifts ⟨read, [], source⟩ =
        parser.continuePass splits last shifts
          ⟨{ kind := .greater, text := ">", position } :: read, [], rest⟩ := by
  have told : parser.telling chart = some true := by
    rw [telling, if_pos context, (insideTypes_iff ready reads).mpr closes]
  have ran : Tape.next ⟨read, [], source⟩ (parser.telling chart) = .ok
      ({ kind := .greater, text := ">", position },
        ⟨{ kind := .greater, text := ">", position } :: read, [], rest⟩) := by
    rw [told, Tape.next]
    simp only [Option.elim_some, next]
    rfl
  obtain ⟨-, last, stepped⟩ := (reads.step_cases ready total
    { kind := .greater, text := ">", position }).resolve_right fun stuck => stuck.1 closes.1
  refine ⟨last, stepped, reads.step stepped, ?_⟩
  rw [continuePass_angle ran, stepped]

/-- And so is a run of them, if only a single `>` can come behind each but the last. -/
theorem continuePass_angles (splits : List Position) (shifts : List Position)
    (read : List Token) {count : Nat} {left : List Char} (reads : parser.Reads tokens chart)
    (closes : ∀ i ≤ count,
      parser.grammar.Closes (tokens.map (·.kind) ++ List.replicate i .greater))
    (next : (source.setInTypes true).nextSignificant =
      ({ kind := .greater, text := ">", position },
        .text ⟨List.replicate count '>' ++ left, position.shift 1, true⟩)) :
    ∃ last, parser.steps chart (angles position (count + 1)) = (last, none) ∧
      parser.Reads (tokens ++ angles position (count + 1)) last ∧
      parser.continuePass splits chart shifts ⟨read, [], source⟩ =
        parser.continuePass splits last shifts
          ⟨(angles position (count + 1)).reverse ++ read, [],
            .text ⟨left, position.shift (count + 1), true⟩⟩ := by
  induction count generalizing tokens chart source position read with
  | zero =>
    obtain ⟨last, stepped, further, same⟩ := continuePass_closing ready total context splits shifts
      read reads (by simpa using closes 0 (Nat.le_refl _)) next
    refine ⟨last, ?_, further, same⟩
    rw [angles_succ, steps, stepped]
    rfl
  | succ count ih =>
    obtain ⟨between, stepped, further, same⟩ := continuePass_closing ready total context splits
      shifts read reads (by simpa using closes 0 (Nat.zero_le _)) next
    have next : ((TokenSource.text
          ⟨List.replicate (count + 1) '>' ++ left, position.shift 1, true⟩).setInTypes
            true).nextSignificant = _ :=
      TokenSource.nextSignificant_greater _ _
    obtain ⟨last, ran, whole, rest⟩ :=
      ih ({ kind := .greater, text := ">", position } :: read) further
        (fun i bound => by
          simpa [List.replicate_succ] using closes (i + 1) (Nat.succ_le_succ bound)) next
    rw [Position.shift_shift, Nat.add_comm 1] at rest
    refine ⟨last, ?_, ?_, ?_⟩
    · rw [angles_succ, steps, stepped]
      exact ran
    · rw [angles_succ]
      simpa using whole
    · rw [same, rest, angles_succ position, List.reverse_cons, List.append_assoc]
      rfl

end Total

/-- Single `>` that were taken before are read again. -/
theorem continuePass_replay (parser : Parser α) (splits : List Position) (shifts : List Position)
    (source : TokenSource) (run : List Token)
    (single : ∀ token ∈ run, ∃ position, token = { kind := .greater, text := ">", position })
    (chart : Chart α) (read ahead : List Token) :
    match parser.steps chart run with
    | (last, none) =>
      parser.continuePass splits chart shifts ⟨read, run ++ ahead, source⟩ =
        parser.continuePass splits last shifts ⟨run.reverse ++ read, ahead, source⟩
    | (last, some reason) => ∃ passed left, run = passed ++ left ∧
      parser.continuePass splits chart shifts ⟨read, run ++ ahead, source⟩ =
        { outcome := .error reason, columns := last.columns, shifts,
          tape := ⟨passed.reverse ++ read, left ++ ahead, source⟩ } := by
  induction run generalizing chart read with
  | nil => rfl
  | cons token run ih =>
    obtain ⟨⟨position, rfl⟩, later⟩ := List.forall_mem_cons.mp single
    have ran : Tape.next ⟨read, { kind := .greater, text := ">", position } :: run ++ ahead, source⟩
        (parser.telling chart) = .ok ({ kind := .greater, text := ">", position },
          ⟨{ kind := .greater, text := ">", position } :: read, run ++ ahead, source⟩) := rfl
    rw [continuePass_angle ran, steps]
    cases stepped : parser.step chart { kind := .greater, text := ">", position } with
    | error reason => exact ⟨[_], run, rfl, rfl⟩
    | ok next =>
      have rest := ih later next ({ kind := .greater, text := ">", position } :: read)
      dsimp only
      rcases found : parser.steps next run with ⟨last, _ | reason⟩
      · rw [found] at rest
        simpa using rest
      · rw [found] at rest
        obtain ⟨passed, left, rfl, same⟩ := rest
        exact ⟨_ :: passed, left, rfl, by simpa using same⟩

/-- A shift is written with `>` alone if it begins so. -/
theorem singles_eq_angles {token : Token} (shift : token.kind.isRightShift)
    (spelled : token.text = token.kind.text) :
    ∃ count, token.text.toList = List.replicate (count + 1) '>' ∧
      singles token = angles token.position (count + 1) := by
  obtain ⟨kind, text, position, value⟩ := token
  obtain rfl : text = kind.text := spelled
  cases kind with
  | rightShift =>
    have written : ">>".toList = ['>', '>'] := by decide
    exact ⟨1, written, rfl⟩
  | unsignedShift =>
    have written : ">>>".toList = ['>', '>', '>'] := by decide
    exact ⟨2, written, rfl⟩
  | _ => cases shift

end Parser

namespace Tape

open JavaFrontend.Parser (pieces isSplit singles angles)

variable {cut : List Position} {tape : Tape} {before fresh : List Token} {token : Token}

/-- A shift that is still in the text is handed out as single `>` where type arguments may close,
and its place is one of those that are cut from then on. -/
theorem Lags.next_cut (lags : tape.Lags true cut before [] (token :: fresh))
    (joined : token.isJoined) (shift : token.kind.isRightShift)
    (apart : ∀ other ∈ before, other.position ≠ token.position) :
    ∃ count left, token.error? = none ∧ token.text.length = count + 1 ∧
      singles token = angles token.position (count + 1) ∧
      (tape.source.setInTypes true).nextSignificant =
        ({ kind := .greater, text := ">", position := token.position },
          .text ⟨List.replicate count '>' ++ left, token.position.shift 1, true⟩) ∧
      Lags true (token.position :: cut) ⟨(singles token).reverse ++ tape.read, [],
        .text ⟨left, token.position.shift (count + 1), true⟩⟩ (before ++ [token]) [] fresh := by
  obtain ⟨lexer, last, untold, -, source, waiting⟩ := lags.left.resolve_left (List.cons_ne_nil _ _)
  obtain ⟨rest, handsOut, rfl⟩ := Lexer.exists_handsOut untold waiting
  obtain ⟨clean, spelled, more, begins, further, next⟩ := handsOut.joined joined
  obtain ⟨count, written, run⟩ := Parser.singles_eq_angles shift spelled
  obtain rfl : more = List.replicate count '>' :=
    (List.cons.inj (begins.symm.trans written)).2
  refine ⟨count, rest.text, clean, ?_, run, ?_, ?_, rfl, ?_, ?_⟩
  · rw [← String.length_toList, written, List.length_replicate]
  · rw [source]
    exact next
  · have kept : before.flatMap (pieces (token.position :: cut)) = before.flatMap (pieces cut) :=
      List.flatMap_congr fun other member => by
        rw [pieces, pieces, Parser.isSplit_congr]
        simp [apart other member]
    have split : pieces (token.position :: cut) token = singles token := by
      simp [pieces, isSplit, shift]
    simp [kept, split, lags.read]
  · rw [List.append_nil]
    exact List.forall_mem_append.mpr ⟨by simpa using lags.clean, by simpa using clean⟩
  · have inside : token.kind ≠ .endOfInput := by
      intro ended
      rw [ended] at shift
      cases shift
    refine .inr ⟨rest, true, handsOut.untold, by simp, ?_, (if_neg inside).symm⟩
    rw [List.length_replicate] at further
    rw [← further]
    rfl

end Tape

end JavaFrontend
