import JavaFrontend.Chart.Closure
import JavaFrontend.Parse.Tape

/-!
One pass over an input. The chart grows by a column per token until the input ends or a token does
not fit. Shifts at chosen places are taken as runs of single `>`; the others at which a single `>`
would have fitted too are noted down, for they may have been meant to close type arguments.
-/

namespace JavaFrontend

/-- The closed columns of a chart, of which there is at least one. -/
structure Chart (α : Type) where
  earlier : Array (Column α)
  last : Column α

namespace Chart

variable {α : Type}

def columns (chart : Chart α) : Array (Column α) := chart.earlier.push chart.last

end Chart

/-- A parser: a grammar, what to make of its rules, and how to treat the source of tokens. -/
structure Parser (α : Type) extends ChartParser α where
  /-- Whether the source is told where type arguments may close. -/
  typeContext : Bool := true

/-- What a pass came to. -/
structure Pass (α : Type) where
  outcome : Except ParseError α
  /-- The columns that were closed. -/
  columns : Array (Column α)
  /-- Where the noted shifts are, the last of them first. -/
  shifts : List Position
  tape : Tape

/-- The number of states in all columns. -/
def Pass.stateCount {α : Type} (pass : Pass α) : Nat :=
  pass.columns.foldl (fun count column => count + column.size) 0

namespace Parser

variable {α : Type}

/-- Why the token does not fit behind the chart. -/
def unexpected (parser : Parser α) (chart : Chart α) (token : Token) : ParseError :=
  .unexpected token.position token.kind (parser.expected chart.last)

/-- The chart with one more column, behind the token. -/
def step (parser : Parser α) (chart : Chart α) (token : Token) : Except ParseError (Chart α) :=
  let next := parser.scan chart.last token
  if next.isEmpty then throw (parser.unexpected chart token)
  else
    let earlier := chart.columns
    match parser.close earlier next with
    | .ok last => return { earlier, last }
    | .error reason => throw (.internal reason)

/-- The chart with a column behind each of the tokens, up to the first that fails. -/
def steps (parser : Parser α) (chart : Chart α) : List Token → Chart α × Option ParseError
  | [] => (chart, none)
  | token :: rest =>
    match parser.step chart token with
    | .ok chart => parser.steps chart rest
    | .error reason => (chart, some reason)

/-- What the whole input is made into, if the chart spans it. -/
def accept (parser : Parser α) (chart : Chart α) (token : Token) : Except ParseError α :=
  match parser.accepted? chart.last with
  | none => throw (parser.unexpected chart token)
  | some state =>
    match parser.interpretation.reduce state.rule state.matched with
    | .ok root => return root
    | .error reason => throw (.internal reason)

/-- The end of a pass at the end mark, which has a column of its own if the grammar asks for it. -/
def finish (parser : Parser α) (chart : Chart α) (token : Token) :
    Except ParseError α × Chart α :=
  if (parser.expected chart.last).contains .endOfInput then
    match parser.step chart token with
    | .ok chart => (parser.accept chart token, chart)
    | .error reason => (throw reason, chart)
  else (parser.accept chart token, chart)

/-- A single `>` for each character of a shift. -/
def singles (token : Token) : List Token :=
  (List.range (max 1 token.text.utf8ByteSize)).map fun i =>
    { kind := .greater, text := ">", position := token.position.shift i }

/-- Whether the token is a shift at one of the places. -/
def isSplit (splits : List Position) (token : Token) : Bool :=
  token.kind.isRightShift && splits.contains token.position

/-- What the parser reads for a token, if the shifts at the places are to be taken as single
`>`. -/
def pieces (splits : List Position) (token : Token) : List Token :=
  if isSplit splits token then singles token else [token]

/-- Whether only a single `>` can come behind the chart, and no shift. -/
def insideTypes (parser : Parser α) (chart : Chart α) : Bool :=
  let expected := parser.expected chart.last
  expected.contains .greater && !expected.contains .rightShift

/-- Goes on with a pass from the chart on. -/
def continuePass (parser : Parser α) (splits : List Position) (chart : Chart α)
    (shifts : List Position) (tape : Tape) : Pass α :=
  let inTypes := if parser.typeContext then some (parser.insideTypes chart) else none
  match _next : tape.next inTypes with
  | .error reason => { outcome := .error reason, columns := chart.columns, shifts, tape }
  | .ok (token, rest) =>
    if _ended : token.kind = .endOfInput then
      let (outcome, chart) := parser.finish chart token
      { outcome, columns := chart.columns, shifts, tape := rest }
    else
      let ambiguous := token.kind.isRightShift && !isSplit splits token &&
        (parser.expected chart.last).contains .greater
      let shifts := if ambiguous then token.position :: shifts else shifts
      match parser.steps chart (pieces splits token) with
      | (chart, some reason) =>
        { outcome := .error reason, columns := chart.columns, shifts, tape := rest }
      | (chart, none) => parser.continuePass splits chart shifts rest
termination_by tape.remaining
decreasing_by exact Tape.remaining_next_lt ‹_› ‹_›

/-- A pass over the tape, with the shifts at the places taken as single `>`. -/
def pass (parser : Parser α) (splits : List Position) (tape : Tape) : Pass α :=
  match parser.close #[] parser.firstColumn with
  | .error reason => { outcome := .error (.internal reason), columns := #[], shifts := [], tape }
  | .ok first => parser.continuePass splits { earlier := #[], last := first } [] tape

end Parser

end JavaFrontend
