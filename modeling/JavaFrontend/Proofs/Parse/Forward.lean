import JavaFrontend.Proofs.Parse.Texts

/-!
The first token that is taken from a text. Whatever the lexer is told in between, all tokens that
are taken behind it are at later places (`Tape.Forward`).
-/

namespace JavaFrontend

/-! ### One token after the other -/

theorem Position.before_shift (position : Position) {columns : Nat} (some : 0 < columns) :
    position.Before (position.shift columns) := .inr ⟨rfl, Nat.lt_add_of_pos_right some⟩

/-- What is ahead of a place stays ahead of it, and the next token but for the end mark is in front
of what is left. -/
theorem TokenSource.nextSignificant_text (lexer : Lexer) :
    ∃ token rest, (text lexer).nextSignificant = (token, .text rest) ∧
      (∀ place : Position, place.Before lexer.position →
        place.Before token.position ∧ place.Before rest.position) ∧
      (token.kind ≠ .endOfInput → token.position.Before rest.position) := by
  induction length : lexer.text.length using Nat.strongRecOn generalizing lexer with
  | ind n ih =>
    rw [nextSignificant]
    by_cases more : lexer.text = []
    · have stays : lexer.next.2 = lexer := by
        obtain ⟨text, position, told⟩ := lexer
        cases more
        rfl
      rw [if_neg (by simp [hasMore, Lexer.hasMore, more])]
      refine ⟨lexer.next.1, lexer.next.2, rfl, fun place before => ?_, fun inside => ?_⟩
      · rw [lexer.position_next, stays]
        exact ⟨before, before⟩
      · exact absurd (lexer.sound_next.2.mpr more) inside
    · have further := lexer.before_next more
      split
      · obtain ⟨token, rest, next, ahead, inside⟩ :=
          ih _ (length ▸ Lexer.length_next_lt more) lexer.next.2 rfl
        exact ⟨token, rest, next, fun place before => ahead place (before.trans further), inside⟩
      · refine ⟨lexer.next.1, lexer.next.2, rfl, fun place before => ?_, fun _ => ?_⟩
        · rw [lexer.position_next]
          exact ⟨before, before.trans further⟩
        · rw [lexer.position_next]
          exact further

/-! ### The first token of a tape -/

/-- If anything was taken from the text at all, then first its first token, behind which all others
are. -/
inductive Tape.Forward (source : String) (tape : Tape) : Prop where
  | start (told : Bool) (unread : tape.read.reverse ++ tape.ahead = [])
    (whole : tape.source = .text ((Lexer.ofString source).setInTypes told))
  | begun (told : Bool) (head : Token) (others : List Token) (lexer : Lexer)
    (first : (TokenSource.text ((Lexer.ofString source).setInTypes told)).nextSignificant.1 = head)
    (taken : tape.read.reverse ++ tape.ahead = head :: others)
    (left : tape.source = .text lexer)
    (behind : head.kind ≠ .endOfInput → head.position.Before lexer.position ∧
      ∀ other ∈ others, head.position.Before other.position)

namespace Tape.Forward

variable {source : String} {tape rest : Tape} {inTypes : Option Bool} {token : Token}

theorem rewind (forward : tape.Forward source) : tape.rewind.Forward source := by
  cases forward with
  | start told unread whole => exact .start told (by simpa [Tape.rewind] using unread) whole
  | begun told head others lexer first taken left behind =>
    exact .begun told head others lexer first (by simpa [Tape.rewind] using taken) left behind

theorem next (forward : tape.Forward source) (ran : tape.next inTypes = .ok (token, rest)) :
    rest.Forward source := by
  obtain ⟨read, ahead, tokens⟩ := tape
  cases ahead with
  | cons token ahead =>
    cases ran
    have again : (token :: read).reverse ++ ahead = read.reverse ++ token :: ahead := by simp
    cases forward with
    | start told unread => simp at unread
    | begun told head others lexer first taken left behind =>
      exact .begun told head others lexer first (again.trans taken) left behind
  | nil =>
    have asked (lexer : Lexer) : ∃ told, inTypes.elim (.text lexer)
        (TokenSource.text lexer).setInTypes = .text (lexer.setInTypes told) := by
      cases inTypes with
      | none => exact ⟨lexer.inTypes, rfl⟩
      | some told => exact ⟨told, rfl⟩
    unfold Tape.next at ran
    dsimp only at ran
    cases forward with
    | start told unread whole =>
      obtain rfl : read = [] := by simpa using unread
      obtain rfl : tokens = _ := whole
      obtain ⟨now, same⟩ := asked ((Lexer.ofString source).setInTypes told)
      have again : ((Lexer.ofString source).setInTypes told).setInTypes now =
          (Lexer.ofString source).setInTypes now := rfl
      obtain ⟨token, lexer, next, -, inside⟩ :=
        TokenSource.nextSignificant_text ((Lexer.ofString source).setInTypes now)
      rw [same, again, next] at ran
      dsimp only at ran
      split at ran
      · cases ran
      · cases ran
        exact .begun now token [] lexer (by rw [next]) rfl rfl fun other => ⟨inside other, by simp⟩
    | begun told head others lexer first taken left behind =>
      obtain rfl : tokens = _ := left
      obtain ⟨now, same⟩ := asked lexer
      obtain ⟨token, lexer, next, ahead, -⟩ :=
        TokenSource.nextSignificant_text (lexer.setInTypes now)
      rw [same, next] at ran
      dsimp only at ran
      split at ran
      · cases ran
      · cases ran
        refine .begun told head (others ++ [token]) lexer first ?_ rfl fun inside => ?_
        · rw [List.append_nil] at taken
          simp [taken]
        · obtain ⟨front, all⟩ := behind inside
          obtain ⟨here, further⟩ := ahead _ front
          exact ⟨further, List.forall_mem_append.mpr ⟨all, by simpa using here⟩⟩

/-- The head of a text as the lexer hands it out, told anything. -/
theorem head_of_told {own : Token} {later : List Token} (told : Bool)
    (waiting : (Lexer.ofString source).pending = own :: later) :
    let head := ((TokenSource.text ((Lexer.ofString source).setInTypes told)).nextSignificant).1
    head.position = own.position ∧ (head.kind = .leftParen → own.kind = .leftParen) := by
  obtain ⟨rest, handsOut, -⟩ := Lexer.exists_handsOut rfl waiting
  by_cases whole : told = false ∨ own.isJoined = false
  · rw [handsOut.whole told whole]
    exact ⟨rfl, id⟩
  · obtain ⟨told, joined⟩ := not_or.mp whole
    rw [eq_true_of_ne_false told]
    obtain ⟨-, -, _, -, -, next⟩ := handsOut.joined (eq_true_of_ne_false joined)
    rw [next]
    exact ⟨rfl, nofun⟩

/-- The pieces of a token begin where it does, with a parenthesis only if it is one, and go on
behind. -/
theorem pieces_forward (splits : List Position) (token : Token) :
    ∃ first others, Parser.pieces splits token = first :: others ∧
      first.position = token.position ∧ (first.kind = .leftParen → token.kind = .leftParen) ∧
      (token.kind = .endOfInput → first.kind = .endOfInput) ∧
      ∀ other ∈ others, token.position.Before other.position := by
  unfold Parser.pieces
  split
  · next split =>
    have inside : token.kind ≠ .endOfInput := by
      intro ended
      simp [Parser.isSplit, ended, Kind.isRightShift] at split
    unfold Parser.singles
    rw [show max 1 token.text.utf8ByteSize = max 1 token.text.utf8ByteSize - 1 + 1 by omega,
      List.range_succ_eq_map, List.map_cons, List.map_map]
    refine ⟨_, _, rfl, rfl, fun paren => Kind.noConfusion paren,
      fun ended => absurd ended inside, ?_⟩
    rintro _ member
    obtain ⟨i, -, rfl⟩ := List.mem_map.mp member
    exact token.position.before_shift (Nat.succ_pos i)
  · exact ⟨token, [], rfl, rfl, id, id, by simp⟩

/-- What is taken from the tape begins where the text does, with a parenthesis only if the text
does, and goes on behind. -/
theorem places {splits : List Position} {own : Token} {later tokens : List Token}
    (forward : tape.Forward source) (waiting : (Lexer.ofString source).pending = own :: later)
    (front : token :: tokens <+: Parser.taken splits tape) (inside : token.kind ≠ .endOfInput) :
    token.position = own.position ∧ (token.kind = .leftParen → own.kind = .leftParen) ∧
      ∀ other ∈ tokens, token.position.Before other.position := by
  have read : tape.read.reverse ≠ [] := fun none => by simp [Parser.taken, none] at front
  obtain ⟨head, others, split⟩ := List.exists_cons_of_ne_nil read
  obtain ⟨first, more, cut, place, paren, ended, behind⟩ := pieces_forward splits head
  rw [Parser.taken, split, List.flatMap_cons, cut, List.cons_append] at front
  obtain ⟨rfl, within⟩ := List.cons_prefix_cons.mp front
  cases forward with
  | start told unread => simp [split] at unread
  | begun told own others' lexer isFirst taken left ahead =>
    rw [split, List.cons_append] at taken
    obtain ⟨rfl, rfl⟩ := List.cons.inj taken
    have same := head_of_told told waiting
    rw [isFirst] at same
    obtain ⟨samePlace, sameParen⟩ := same
    refine ⟨place.trans samePlace, fun isParen => sameParen (paren isParen), fun other member => ?_⟩
    rw [place]
    rcases List.mem_append.mp (within.subset member) with own | later
    · exact behind other own
    · obtain ⟨token, among, piece⟩ := List.mem_flatMap.mp later
      have before := (ahead (mt ended inside)).2 token (List.mem_append_left _ among)
      obtain ⟨first, rest, pieces, samePlace, -, -, beyond⟩ := pieces_forward splits token
      rw [pieces] at piece
      rcases List.mem_cons.mp piece with rfl | further
      · rwa [samePlace]
      · exact before.trans (beyond other further)

end Tape.Forward

end JavaFrontend
