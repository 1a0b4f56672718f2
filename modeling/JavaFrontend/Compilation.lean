import JavaFrontend.Batch
import JavaFrontend.Diagnostic
import JavaFrontend.Source.Discovery

/-!
Compilations: the source files are found and read, then parsed. What is wrong with single files is
reported, and a stage goes on with the others; but after a stage in which an error was reported
there is no other.
-/

namespace JavaFrontend

structure CompilationSettings where
  /-- The files and directories to compile. -/
  sources : List Path
  /-- Whether the ends of stages are worth more than a debugging line. -/
  reportTime : Bool := false
  /-- Whether there is a line for every tree. -/
  debug : Bool := false
  failFast : Bool := false

inductive Stage where
  | setupSources | parse
deriving DecidableEq, Repr

namespace Stage

def display : Stage → String
  | .setupSources => "setup sources"
  | .parse => "parse"

end Stage

/-- Why a compilation came to nothing. -/
inductive CompileError where
  | stageFailed (stage : Stage) (errors : Nat)
  | internal (origin : Path) (reason : ReduceError)
deriving DecidableEq, Repr

namespace CompileError

def message : CompileError → String
  | .stageFailed stage errors => stage.display ++ " failed with " ++ toString errors ++ " error(s)"
  | .internal origin reason =>
    "Internal error while parsing " ++ origin.text ++ ": " ++ reason.message

end CompileError

/-- What a compilation has said so far. -/
structure CompilationReport where
  diagnostics : Diagnostics := {}
  log : List LogLine := []

/-- A step of a compilation. -/
abbrev CompileM := ExceptT CompileError (StateM CompilationReport)

namespace CompileM

def report (diagnostic : Diagnostic) : CompileM Unit :=
  modify fun so => { so with diagnostics := so.diagnostics.report diagnostic }

def log (level : LogLevel) (message : String) : CompileM Unit :=
  modify fun so => { so with log := so.log ++ [⟨level, message⟩] }

/-- Runs a stage and says that it is over, even if it fails. -/
def stage {α : Type} (settings : CompilationSettings) (stage : Stage) (run : CompileM α) :
    CompileM α := do
  try run
  finally log (if settings.reportTime then .info else .debug) stage.display

/-- Ends the compilation if an error was reported. -/
def check (stage : Stage) (failures : Nat) : CompileM Unit := do
  if (← get).diagnostics.hasError then
    let error := CompileError.stageFailed stage failures
    log .warn error.message
    throw error

end CompileM

namespace Compilation

open CompileM

variable {α : Type}

/-- A file as text, if that is what it holds. -/
def readText (file : FoundFile) : Except Path SourceText :=
  match String.fromUTF8? file.contents with
  | some text => .ok ⟨file.path, text⟩
  | none => .error file.path

/-- The source texts, and how many paths could not be read. -/
def setupSources (files : FileTree) (roots : List Path) : CompileM (List SourceText × Nat) := do
  let found := Discovery.ofRoots files roots
  for path in found.missing do
    log .warn ("cannot read " ++ path.text)
  let read := found.files.map readText
  let texts := read.filterMap (·.toOption)
  let unreadable := found.missing ++ read.filterMap fun
    | .ok _ => none
    | .error path => some path
  for path in unreadable do
    report (.unreadable path)
  if texts.isEmpty && unreadable.isEmpty then
    report .noSources
  return (texts, unreadable.length)

/-- Reports what is wrong with a file, unless that is nobody's fault but the parser's. -/
def reportResult (result : FileResult α) : CompileM (Option (Path × α)) :=
  match result.outcome with
  | .ok tree => return some (result.origin, tree)
  | .error (.internal reason) => throw (.internal result.origin reason)
  | .error reason => do
    report (.unparsable result.origin reason)
    return none

/-- The trees of the texts, and how many texts have none. -/
def parseTexts (parser : Parser α) (failFast : Bool) (texts : List SourceText) :
    CompileM (List (Path × α) × Nat) := do
  let results := Batch.parse parser failFast texts
  let summary := BatchSummary.ofResults results
  log .debug (toString summary.successful ++ " of " ++ toString summary.total ++
    " files parsed, " ++ toString summary.errors ++ " errors")
  let trees ← results.mapM reportResult
  return (trees.filterMap id, summary.failed)

/-- All stages. -/
def stages (parser : Parser α) (settings : CompilationSettings) (files : FileTree) :
    CompileM (List (Path × α)) := do
  let (texts, failures) ← stage settings .setupSources (setupSources files settings.sources)
  check .setupSources failures
  let (trees, failures) ← stage settings .parse (parseTexts parser settings.failFast texts)
  check .parse failures
  if settings.debug then
    for (origin, _) in trees do
      log .debug origin.text
  return trees

/-- The trees of the source files by their paths, and what was said on the way. -/
def run (parser : Parser α) (settings : CompilationSettings) (files : FileTree) :
    Except CompileError (List (Path × α)) × CompilationReport :=
  (stages parser settings files).run {}

end Compilation

end JavaFrontend
