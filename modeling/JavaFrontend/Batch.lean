import JavaFrontend.Parse.Attempts
import JavaFrontend.Source.Path

/-!
Batches of source texts. The texts are parsed in order, and a text that fails may keep those behind
it from being parsed at all: if it fails through no fault of its own, or if one failure is enough.
-/

namespace JavaFrontend

/-- A source text and where it is from. -/
structure SourceText where
  origin : Path
  text : String

/-- What became of one text. -/
structure FileResult (α : Type) where
  origin : Path
  outcome : Except ParseError α

namespace FileResult

variable {α : Type}

def tree? (result : FileResult α) : Option α := result.outcome.toOption

def errors (result : FileResult α) : List ParseError :=
  match result.outcome with
  | .ok _ => []
  | .error reason => [reason]

def isOk (result : FileResult α) : Bool := result.errors.isEmpty

def isInternal (result : FileResult α) : Bool := result.errors.any (·.isInternal)

/-- Whether nothing more is parsed after this result. -/
def stops (failFast : Bool) (result : FileResult α) : Bool :=
  result.isInternal || (failFast && !result.isOk)

end FileResult

namespace Batch

variable {α : Type}

def parseOne (parser : Parser α) (source : SourceText) : FileResult α :=
  { origin := source.origin, outcome := parser.parse (.ofString source.text) }

/-- The results of the texts up to the first that stops the batch. -/
def parse (parser : Parser α) (failFast : Bool) : List SourceText → List (FileResult α)
  | [] => []
  | source :: rest =>
    let result := parseOne parser source
    if result.stops failFast then [result] else result :: parse parser failFast rest

/-- What is said about the progress of a batch: how many texts of how many are done. -/
def progress (results : List (FileResult α)) (total : Nat) : List (Nat × Nat) :=
  (List.range results.length).map fun done => (done + 1, total)

end Batch

/-- The results of a batch by numbers. -/
structure BatchSummary where
  total : Nat
  successful : Nat
  errors : Nat
deriving DecidableEq, Repr

namespace BatchSummary

def ofResults {α : Type} (results : List (FileResult α)) : BatchSummary where
  total := results.length
  successful := results.countP (·.isOk)
  errors := results.foldl (fun count result => count + result.errors.length) 0

def failed (summary : BatchSummary) : Nat := summary.total - summary.successful

/-- How many percent were successful; an empty batch was so altogether. -/
def successRate (summary : BatchSummary) : Float :=
  if summary.total = 0 then 100 else summary.successful.toFloat / summary.total.toFloat * 100

end BatchSummary

end JavaFrontend
