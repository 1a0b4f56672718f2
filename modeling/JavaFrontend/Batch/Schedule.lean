import JavaFrontend.Batch

/-!
Batches whose texts are parsed side by side. Each text has a task of its own, and the tasks share a
flag, a counter and whoever is told of the progress. A schedule names, over and over, the task that
acts next; an act is one access to what is shared, or the parsing of the text. Nothing limits how
many tasks are under way at a time: a schedule may finish one before it begins the next, or change
between all of them.
-/

namespace JavaFrontend.Batch

variable {α : Type}

/-- How far the task of a text has come. -/
inductive Phase (α : Type) where
  | waiting
  /-- The flag was up when the task looked, which is the first thing it does. -/
  | skipped
  | started
  | parsed (result : FileResult α)
  /-- The flag is up if the result stops the batch. -/
  | settled (result : FileResult α)
  /-- The text was counted, as the one of this number. -/
  | counted (result : FileResult α) (number : Nat)
  | reported (result : FileResult α)

namespace Phase

def result? : Phase α → Option (FileResult α)
  | .waiting | .skipped | .started => none
  | .parsed result | .settled result | .counted result _ | .reported result => some result

def isOver : Phase α → Bool
  | .skipped | .reported _ => true
  | _ => false

end Phase

/-- A batch on its way: its tasks in the order of the texts, and what they share. -/
structure Run (α : Type) where
  phases : List (Phase α)
  stopped : Bool
  completed : Nat
  reports : List (Nat × Nat)

namespace Run

def start (texts : List SourceText) : Run α where
  phases := texts.map fun _ => .waiting
  stopped := false
  completed := 0
  reports := []

def enter (run : Run α) (task : Nat) (phase : Phase α) : Run α :=
  { run with phases := run.phases.set task phase }

/-- The run after the next act of a task. One that is over, or that no text has, does nothing. -/
def step (parser : Parser α) (failFast : Bool) (texts : List SourceText) (run : Run α)
    (task : Nat) : Run α :=
  match texts[task]?, run.phases[task]? with
  | some _, some .waiting => run.enter task (if run.stopped then .skipped else .started)
  | some source, some .started => run.enter task (.parsed (parseOne parser source))
  | some _, some (.parsed result) =>
    { run.enter task (.settled result) with stopped := run.stopped || result.stops failFast }
  | some _, some (.settled result) =>
    let number := run.completed + 1
    { run.enter task (.counted result number) with completed := number }
  | some _, some (.counted result number) =>
    { run.enter task (.reported result) with reports := run.reports ++ [(number, texts.length)] }
  | _, _ => run

def IsComplete (run : Run α) : Prop := ∀ phase ∈ run.phases, phase.isOver

def result? (run : Run α) (task : Nat) : Option (FileResult α) :=
  run.phases[task]?.bind Phase.result?

/-- The results there are, in the order of the texts. -/
def results (run : Run α) : List (FileResult α) := run.phases.filterMap Phase.result?

end Run

/-- The run after the acts of a schedule. -/
def after (parser : Parser α) (failFast : Bool) (texts : List SourceText) (schedule : List Nat) :
    Run α :=
  schedule.foldl (Run.step parser failFast texts) (.start texts)

end JavaFrontend.Batch
