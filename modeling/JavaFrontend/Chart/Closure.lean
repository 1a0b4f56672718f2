import JavaFrontend.Chart.Column
import JavaFrontend.Chart.Interpretation
import JavaFrontend.Grammar.Prediction

/-!
The growth of a chart. A column is closed by going through its states in the order in which they
came in: a state that waits on a name brings in the rules of the name, and a completed state moves
the dots of the states that waited on it in the column where it started. Both may bring in states,
which are gone through in turn. A token then moves the dots of the states that wait on it into the
next column.
-/

namespace JavaFrontend

/-- A grammar prepared for parsing, and what to make of its rules. -/
structure ChartParser (α : Type) where
  grammar : Grammar
  interpretation : Interpretation α
  predictions : Predictions := .ofGrammar grammar

namespace ChartParser

variable {α : Type}

/-- The rules of the name with their dots in front, as states that start in the column. -/
def predictions? (parser : ChartParser α) (name : String) (origin : Nat) : List (State α) :=
  (parser.predictions.get name).map (.predicted · origin)

/-- Brings the rules of the name into the column, unless that was done before. -/
def predict (parser : ChartParser α) (name : String) (column : Column α) : Column α :=
  if column.isMarked name then column
  else (column.mark name).insertAll .predicted (parser.predictions? name column.index)

/-- Moves the dots of the states that waited on a completed rule. What the rule is made into is
computed even if nothing waited on it. -/
def complete (parser : ChartParser α) (earlier : Array (Column α)) (state : State α)
    (column : Column α) : Except ReduceError (Column α) := do
  let found ← parser.interpretation.reduce state.rule state.matched
  match parser.grammar.rule? state.rule, earlier[state.origin]? with
  | some rule, some origin =>
    let waiting := origin.view.waitingOn parser.grammar (.rule rule.name)
    return column.insertAll .completed (waiting.map (·.advance found))
  | _, _ => return column

/-- What one state brings into its column. -/
def process (parser : ChartParser α) (earlier : Array (Column α)) (state : State α)
    (column : Column α) : Except ReduceError (Column α) :=
  match state.next? parser.grammar with
  | some (.rule name) => return parser.predict name column
  | some (.token _) => return column
  | none => parser.complete earlier state column

/-- Goes through the states of the column from number `n` on, through `fuel` of them at most. -/
def closeFrom (parser : ChartParser α) (earlier : Array (Column α)) :
    (fuel n : Nat) → Column α → Except ReduceError (Column α)
  | 0, _, column => return column
  | fuel + 1, n, column => do
    match column.get? n with
    | none => return column
    | some state => parser.closeFrom earlier fuel (n + 1) (← parser.process earlier state column)

/-- In how many ways a rule can have a dot. -/
def dottedRules (parser : ChartParser α) : Nat :=
  parser.grammar.rules.foldl (fun count rule => count + (rule.size + 1)) 0

/-- How many states a column may have: each rule with its dot at any place and its start in any
column so far. -/
def capacity (parser : ChartParser α) (column : Column α) : Nat :=
  (column.index + 1) * parser.dottedRules

/-- The column with all the states that follow from those in it. -/
def close (parser : ChartParser α) (earlier : Array (Column α)) (column : Column α) :
    Except ReduceError (Column α) :=
  parser.closeFrom earlier (parser.capacity column + 1) 0 column

/-- The column before the first token. -/
def firstColumn (parser : ChartParser α) : Column α :=
  parser.predict parser.grammar.start { index := 0 }

/-- The column behind the token, before it is closed. -/
def scan (parser : ChartParser α) (column : Column α) (token : Token) : Column α :=
  let waiting := column.view.waitingOn parser.grammar (.token token.kind)
  ({ index := column.index + 1 } : Column α).insertAll .scanned
    (waiting.map (·.advance (parser.interpretation.leaf token)))

/-- Which tokens can come behind the column. -/
def expected (parser : ChartParser α) (column : Column α) : List Kind :=
  column.view.awaitedKinds parser.grammar

/-- The first completed state of the column that spans the whole input up to it and whose rule is
one for the start. -/
def accepted? (parser : ChartParser α) (column : Column α) : Option (State α) :=
  (column.entries.find? fun entry =>
    entry.state.isCompleted parser.grammar && entry.state.origin == 0 &&
    (parser.grammar.rule? entry.state.rule).any (·.name == parser.grammar.start)).map (·.state)

end ChartParser

end JavaFrontend
