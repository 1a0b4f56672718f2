import JavaFrontend.Parse.Error
import JavaFrontend.Token.Source

/-!
A tape holds the tokens that were taken from a source, so that they can be read again. Blanks and
comments do not get onto it.
-/

namespace JavaFrontend

/-- Tokens that were read, tokens that are to be read again, and the source of all others. -/
structure Tape where
  /-- The tokens that were read, the last of them first. -/
  read : List Token := []
  ahead : List Token := []
  source : TokenSource

namespace Tape

/-- How much is left to read. -/
def remaining (tape : Tape) : Nat := tape.ahead.length + tape.source.remaining

/-- The next token. The source is told whether type arguments may close here, if that is given,
before a token is taken from it; tokens that are read again are what they were. -/
def next (tape : Tape) (inTypes : Option Bool) : Except ParseError (Token × Tape) :=
  match tape.ahead with
  | token :: ahead => return (token, { tape with read := token :: tape.read, ahead })
  | [] =>
    let source := inTypes.elim tape.source tape.source.setInTypes
    let (token, source) := source.nextSignificant
    match token.error? with
    | some reason => throw (.lexical token.position reason)
    | none => return (token, { tape with read := token :: tape.read, source })

/-- Goes back to the first token. -/
def rewind (tape : Tape) : Tape :=
  { tape with read := [], ahead := tape.read.reverse ++ tape.ahead }

/-- Reading a token other than the end mark leaves less to read. -/
theorem remaining_next_lt {tape rest : Tape} {inTypes : Option Bool} {token : Token}
    (h : tape.next inTypes = .ok (token, rest)) (inside : token.kind ≠ .endOfInput) :
    rest.remaining < tape.remaining := by
  unfold next at h
  split at h
  · rename_i first ahead eq
    cases h
    simp [remaining, eq]
  · rename_i eq
    simp only at h
    split at h
    · cases h
    · cases h
      have less := TokenSource.remaining_nextSignificant_lt inside
      cases inTypes <;> simpa [remaining, eq] using less

end Tape

end JavaFrontend
