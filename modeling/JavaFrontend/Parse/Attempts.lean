import JavaFrontend.Parse.Pass
import JavaFrontend.Text.Log

/-!
Attempts at an input. A shift may have been meant to close nested type arguments, so a pass that
fails at a token is followed by another one in which the last shift that may be at fault is split
into single `>`, as long as there is one. If no pass succeeds, the error that got furthest counts.
-/

namespace JavaFrontend

namespace Pass

variable {α : Type}

/-- The shift to split before another pass. -/
def retry? (pass : Pass α) : Option Position :=
  match pass.outcome with
  | .error (.unexpected _ _ _) => pass.shifts.head?
  | _ => none

/-- Which of two outcomes counts, the second being that of a later pass: the later one, unless both
are errors about tokens and the later one got no further. -/
def prefer (best later : Except ParseError α) : Except ParseError α :=
  match best, later with
  | .error (.unexpected furthest _ _), .error (.unexpected position _ _) =>
    if (furthest.compare position).isLT then later else best
  | _, _ => later

end Pass

namespace Parser

variable {α : Type}

/-- The passes over the tape, at most `fuel` of them after the first. -/
def attemptsFrom (parser : Parser α) (splits : List Position) (tape : Tape) :
    (fuel : Nat) → Pass α × List (Pass α)
  | 0 => (parser.pass splits tape, [])
  | fuel + 1 =>
    let first := parser.pass splits tape
    match first.retry? with
    | none => (first, [])
    | some position =>
      let (next, rest) := parser.attemptsFrom (position :: splits) first.tape.rewind fuel
      (first, next :: rest)

/-- The passes over the source. Each but the last splits another of its tokens. -/
def attempts (parser : Parser α) (source : TokenSource) : Pass α × List (Pass α) :=
  parser.attemptsFrom [] { source } source.remaining

/-- The outcome of some passes. -/
def verdict (attempts : Pass α × List (Pass α)) : Except ParseError α :=
  attempts.2.foldl (fun best pass => Pass.prefer best pass.outcome) attempts.1.outcome

/-- What the input is made into. -/
def parse (parser : Parser α) (source : TokenSource) : Except ParseError α :=
  verdict (parser.attempts source)

/-! ### The log of a parse -/

/-- How many states came into the column in each way. -/
def columnLine (column : Column α) : LogLine where
  level := .trace
  message := "column " ++ toString column.index ++ ": " ++
    toString (column.segment .scanned).size ++ " scanned, " ++
    toString (column.segment .completed).size ++ " completed, " ++
    toString (column.segment .predicted).size ++ " predicted"

/-- What is said after the pass: where it is tried again, or how large its chart is. -/
def passLine? (pass : Pass α) : Option LogLine :=
  match pass.retry?, pass.outcome with
  | some position, _ =>
    some ⟨.debug, "retrying with the shift at " ++ toString position ++ " split into '>' tokens"⟩
  | none, .ok _ =>
    some ⟨.debug, "parsed " ++ toString pass.columns.size ++ " columns with " ++
      toString pass.stateCount ++ " states"⟩
  | none, .error _ => none

/-- What is said during some passes: a line for each closed column, and one after each pass. -/
def log (attempts : Pass α × List (Pass α)) : List LogLine :=
  (attempts.1 :: attempts.2).flatMap fun pass =>
    pass.columns.toList.map columnLine ++ (passLine? pass).toList

end Parser

end JavaFrontend
