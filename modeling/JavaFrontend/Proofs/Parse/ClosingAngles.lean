import JavaFrontend.Proofs.Parse.Texts
import JavaFrontend.Proofs.Token.Spacing

/-!
Two ways to close type arguments in a shift. A parser that goes back to a shift reads a single `>`
for each of its characters; a lexer that is told that type arguments may close takes the same
characters one at a time. Both hand out the same tokens, and leave the same text behind them.
-/

namespace JavaFrontend

namespace Lexer

variable {lexer : Lexer}

theorem run_append (calls further : List Call) : lexer.run (calls ++ further) =
    ((lexer.run calls).1 ++ ((lexer.run calls).2.run further).1,
      ((lexer.run calls).2.run further).2) := by
  induction calls generalizing lexer with
  | nil => rfl
  | cons call calls ih => rw [List.cons_append, run_cons, ih, run_cons, List.append_assoc]

/-- Where type arguments may close, a row of `>` is taken one by one. -/
theorem run_angles (count : Nat) (position : Position) (left : List Char) :
    run ⟨List.replicate count '>' ++ left, position, true⟩ (List.replicate count .next) =
      (Parser.angles position count, ⟨left, position.shift count, true⟩) := by
  induction count generalizing position with
  | zero => rfl
  | succ count ih =>
    have first := next_greater position (List.replicate count '>' ++ left)
    rw [List.replicate_succ, List.replicate_succ, List.cons_append, run_cons, call, first]
    dsimp only
    rw [ih, Position.shift_shift, Nat.add_comm 1, Parser.angles_succ]
    rfl

/-- A shift is written with `>` alone, and nothing else is taken for it. -/
theorem next_shift (untold : lexer.inTypes = false) (shift : lexer.next.1.kind.isRightShift) :
    ∃ count left, lexer.text = List.replicate (count + 1) '>' ++ left ∧
      Parser.singles lexer.next.1 = Parser.angles lexer.position (count + 1) ∧
      lexer.next.1.error? = none ∧
      lexer.next.2 = ⟨left, lexer.position.shift (count + 1), false⟩ := by
  obtain ⟨text, position, inTypes⟩ := lexer
  cases untold
  cases text with
  | nil => cases shift
  | cons c text =>
    obtain rfl : c = '>' := by
      unfold next at shift
      dsimp only at shift
      split at shift
      · next kind value ok => exact Lexeme.eq_of_shift ok shift
      · cases shift
    obtain ⟨kind, more, left, rfl, spelled, -, -, found⟩ :=
      next_joint (c := '>') rfl text position
    rw [found] at shift ⊢
    obtain ⟨count, written, run⟩ := Parser.singles_eq_angles shift rfl
    obtain rfl : more = List.replicate count '>' :=
      (List.cons.inj (spelled.symm.trans written)).2
    rw [List.length_replicate]
    exact ⟨count, left, rfl, run, rfl, rfl⟩

end Lexer

namespace Parser

/-- Take a lexer whose next token is a shift, told that no type arguments may close. A tape over it
hands out that shift and leaves the lexer behind it; what the parser reads for it, if it is to be
split, are the tokens that the lexer hands out when it is told that type arguments may close. That
leaves it behind the shift too, so whatever it is asked or told from there on, the tokens are those
of the tape's lexer. -/
theorem pieces_eq_run {lexer : Lexer} (untold : lexer.inTypes = false)
    (shift : lexer.next.1.kind.isRightShift) {splits : List Position}
    (split : lexer.next.1.position ∈ splits) :
    ∃ rest : Lexer, ∃ count,
      (∀ (read : List Token) (inTypes : Option Bool), inTypes ≠ some true →
        Tape.next ⟨read, [], .text lexer⟩ inTypes =
          .ok (lexer.next.1, ⟨lexer.next.1 :: read, [], .text rest⟩)) ∧
      (lexer.setInTypes true).run (List.replicate count .next) =
        (pieces splits lexer.next.1, rest.setInTypes true) ∧
      ∀ calls, (lexer.setInTypes true).run (List.replicate count .next ++ .tell false :: calls) =
        (pieces splits lexer.next.1 ++ (rest.run calls).1, (rest.run calls).2) := by
  obtain ⟨count, left, text, run, clean, behind⟩ := Lexer.next_shift untold shift
  have divided : pieces splits lexer.next.1 = angles lexer.position (count + 1) := by
    rw [pieces, if_pos (by simp [isSplit, shift, split]), run]
  have closing : (lexer.setInTypes true).run (List.replicate (count + 1) .next) =
      (pieces splits lexer.next.1, lexer.next.2.setInTypes true) := by
    rw [Lexer.setInTypes, text, Lexer.run_angles, divided, behind, Lexer.setInTypes]
  refine ⟨lexer.next.2, count + 1, fun read inTypes other => ?_, closing, fun calls => ?_⟩
  · have told : inTypes.elim (TokenSource.text lexer) (TokenSource.text lexer).setInTypes =
        .text lexer := by
      cases inTypes with
      | none => rfl
      | some inTypes =>
        have off : inTypes = false := by simpa using other
        exact congrArg TokenSource.text (Lexer.setInTypes_of_eq (untold.trans off.symm))
    have significant : lexer.next.1.kind.isTrivia = false := by
      revert shift
      cases lexer.next.1.kind <;> simp [Kind.isRightShift, Kind.isTrivia]
    have next : (TokenSource.text lexer).nextSignificant = (lexer.next.1, .text lexer.next.2) := by
      rw [TokenSource.nextSignificant, TokenSource.next, if_neg (by simp [significant])]
    simp only [Tape.next, told, next, clean]
    rfl
  · have off : (lexer.next.2.setInTypes true).setInTypes false = lexer.next.2 := by
      rw [behind]
      rfl
    rw [Lexer.run_append, closing, Lexer.run_cons, Lexer.call, off, List.nil_append]

/-- In `>>>x` three closing angles are read either way, and `x` behind them. -/
theorem pieces_of_unsigned_shift :
    ∃ rest : Lexer, ∃ count,
      (∀ (read : List Token) (inTypes : Option Bool), inTypes ≠ some true →
        Tape.next ⟨read, [], .text (.ofString ">>>x")⟩ inTypes =
          .ok ((Lexer.ofString ">>>x").next.1,
            ⟨(Lexer.ofString ">>>x").next.1 :: read, [], .text rest⟩)) ∧
      ((Lexer.ofString ">>>x").setInTypes true).run (List.replicate count .next) =
        (pieces [.start] (Lexer.ofString ">>>x").next.1, rest.setInTypes true) ∧
      ∀ calls, ((Lexer.ofString ">>>x").setInTypes true).run
          (List.replicate count .next ++ .tell false :: calls) =
        (pieces [.start] (Lexer.ofString ">>>x").next.1 ++ (rest.run calls).1,
          (rest.run calls).2) :=
  pieces_eq_run rfl (by decide +kernel) (by decide +kernel)

end Parser

end JavaFrontend
