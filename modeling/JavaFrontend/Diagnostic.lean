import JavaFrontend.Parse.Error
import JavaFrontend.Source.Path

/-!
Diagnostics: what there is to say about source files. They may be reported in any order and are
listed by file, place and text.
-/

namespace JavaFrontend

inductive Severity where
  | error | warning | note
deriving DecidableEq, Repr

namespace Severity

def display : Severity → String
  | .error => "error"
  | .warning => "warning"
  | .note => "note"

end Severity

/-- What a diagnostic is about. -/
inductive Problem where
  | unreadable (path : Path)
  | unparsable (reason : ParseError)
  | noSources
  | other (text : String)
deriving DecidableEq, Repr

namespace Problem

def message : Problem → String
  | .unreadable path => "Cannot read " ++ path.text
  | .unparsable reason => reason.message
  | .noSources => "no source files"
  | .other text => text

end Problem

/-- Something to say about a source file, or about none in particular. -/
structure Diagnostic where
  severity : Severity
  origin : Option Path
  position : Option Position
  problem : Problem
deriving DecidableEq, Repr

namespace Diagnostic

def unreadable (path : Path) : Diagnostic :=
  { severity := .error, origin := some path, position := none, problem := .unreadable path }

def unparsable (origin : Path) (reason : ParseError) : Diagnostic :=
  { severity := .error, origin := some origin, position := reason.position?,
    problem := .unparsable reason }

def noSources : Diagnostic :=
  { severity := .warning, origin := none, position := none, problem := .noSources }

def isError (diagnostic : Diagnostic) : Bool := diagnostic.severity = .error

def message (diagnostic : Diagnostic) : String := diagnostic.problem.message

/-- The severity and the message. -/
def summary (diagnostic : Diagnostic) : String :=
  diagnostic.severity.display ++ ": " ++ diagnostic.message

/-- The file, the place in it and the summary. A place without a file is left out. -/
def display (diagnostic : Diagnostic) : String :=
  match diagnostic.origin, diagnostic.position with
  | none, _ => diagnostic.summary
  | some origin, none => origin.text ++ ": " ++ diagnostic.summary
  | some origin, some position =>
    origin.text ++ ":" ++ toString position ++ ": " ++ diagnostic.summary

/-- What is missing comes before everything else. -/
def compareOption {α : Type} (order : α → α → Ordering) : Option α → Option α → Ordering
  | none, none => .eq
  | none, some _ => .lt
  | some _, none => .gt
  | some a, some b => order a b

/-- By file, then by place, then by message. -/
protected def compare (a b : Diagnostic) : Ordering :=
  ((compareOption Path.compare a.origin b.origin).then
    (compareOption Position.compare a.position b.position)).then
    (compareOfLessAndEq a.message b.message)

end Diagnostic

/-- The diagnostics reported so far, in the order in which they came. -/
structure Diagnostics where
  reported : List Diagnostic := []

namespace Diagnostics

def report (diagnostics : Diagnostics) (new : Diagnostic) : Diagnostics :=
  ⟨diagnostics.reported ++ [new]⟩

def errorCount (diagnostics : Diagnostics) : Nat := diagnostics.reported.countP (·.isError)

def hasError (diagnostics : Diagnostics) : Bool := diagnostics.reported.any (·.isError)

/-- The diagnostics in their order. -/
def sorted (diagnostics : Diagnostics) : List Diagnostic :=
  diagnostics.reported.mergeSort fun a b => (a.compare b).isLE

end Diagnostics

end JavaFrontend
