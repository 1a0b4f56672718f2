import JavaFrontend.Chart.Column
import Std.Data.HashMap

/-!
Columns that look their states up. Beside the states, a set keeps the numbers of those that are
completed and of those that wait on each name and on each kind; a column keeps a set for each
segment, and of every state that came in the segment and the number that it has there.
-/

namespace JavaFrontend

/-- What is asked about states. -/
structure Answers (α : Type) where
  /-- The states with nothing behind the dot. -/
  completed : List (State α)
  waitingOnName : String → List (State α)
  waitingOnKind : Kind → List (State α)
  /-- The names behind dots. -/
  awaitedNames : List String
  /-- The kinds behind dots, in the order of the kinds. -/
  awaitedKinds : List Kind

namespace Answers

variable {α : Type}

/-- The answers of up to three sets, one after the other. -/
def merge (first : Answers α) (second third : Option (Answers α)) : Answers α :=
  let parts := first :: (second.toList ++ third.toList)
  { completed := parts.flatMap (·.completed)
    waitingOnName := fun name => parts.flatMap (·.waitingOnName name)
    waitingOnKind := fun kind => parts.flatMap (·.waitingOnKind kind)
    awaitedNames := (parts.flatMap (·.awaitedNames)).eraseDups
    awaitedKinds := Kind.all.filter (parts.flatMap (·.awaitedKinds)).contains }

end Answers

/-- What a set answers about its states. -/
def StateSet.answers {α : Type} (set : StateSet α) (grammar : Grammar) : Answers α where
  completed := set.completed grammar
  waitingOnName name := set.waitingOn grammar (.rule name)
  waitingOnKind kind := set.waitingOn grammar (.token kind)
  awaitedNames := set.awaitedNames grammar
  awaitedKinds := set.awaitedKinds grammar

instance : Hashable Kind := ⟨fun kind => hash kind.rank⟩

/-- States under the numbers that they got when they were inserted. -/
structure IndexedSet (α : Type) where
  states : Array (State α) := #[]
  /-- The numbers of the completed states. -/
  completed : Array Nat := #[]
  /-- The numbers of the states that wait on a name. -/
  names : Std.HashMap String (Array Nat) := ∅
  /-- The numbers of the states that wait on a kind. -/
  kinds : Std.HashMap Kind (Array Nat) := ∅

namespace IndexedSet

variable {α : Type}

def size (set : IndexedSet α) : Nat := set.states.size

/-- Records the number of a state with that behind its dot. -/
def record (set : IndexedSet α) (number : Nat) : Option Part → IndexedSet α
  | none => { set with completed := set.completed.push number }
  | some (.rule name) =>
    { set with names := set.names.insert name ((set.names.getD name #[]).push number) }
  | some (.token kind) =>
    { set with kinds := set.kinds.insert kind ((set.kinds.getD kind #[]).push number) }

/-- Inserts the state under the next number. -/
def insert (set : IndexedSet α) (state : State α) (grammar : Grammar) : IndexedSet α :=
  { set.record set.size (state.next? grammar) with states := set.states.push state }

/-- The states that have the numbers. -/
def lookup (set : IndexedSet α) (numbers : Array Nat) : List (State α) :=
  numbers.toList.filterMap fun number => set.states[number]?

def answers (set : IndexedSet α) : Answers α where
  completed := set.lookup set.completed
  waitingOnName name := set.lookup (set.names.getD name #[])
  waitingOnKind kind := set.lookup (set.kinds.getD kind #[])
  awaitedNames := set.names.keys
  awaitedKinds := Kind.all.filter set.kinds.contains

/-- The set itself, unless nothing is in it. -/
def nonempty? (set : IndexedSet α) : Option (IndexedSet α) :=
  if set.states.isEmpty then none else some set

end IndexedSet

/-- A set of states for each segment, with the keys of all the states. -/
structure IndexedColumn (α : Type) where
  scanned : IndexedSet α := {}
  completed : IndexedSet α := {}
  predicted : IndexedSet α := {}
  keys : Std.HashSet StateKey := ∅
  /-- Where the states are, in the order in which they came in. -/
  agenda : Array (Segment × Nat) := #[]

namespace IndexedColumn

variable {α : Type}

def segment (column : IndexedColumn α) : Segment → IndexedSet α
  | .scanned => column.scanned
  | .completed => column.completed
  | .predicted => column.predicted

/-- Inserts the state into the set of its segment. -/
def place (column : IndexedColumn α) (state : State α) (grammar : Grammar) :
    Segment → IndexedColumn α
  | .scanned => { column with scanned := column.scanned.insert state grammar }
  | .completed => { column with completed := column.completed.insert state grammar }
  | .predicted => { column with predicted := column.predicted.insert state grammar }

/-- Adds the state unless one with its key is there already, and says whether it was added. -/
def add (column : IndexedColumn α) (segment : Segment) (state : State α) (grammar : Grammar) :
    Bool × IndexedColumn α :=
  if column.keys.contains state.key then (false, column)
  else (true,
    { column.place state grammar segment with
      keys := column.keys.insert state.key
      agenda := column.agenda.push (segment, (column.segment segment).size) })

/-- The state that came in after `n` others. -/
def get? (column : IndexedColumn α) (n : Nat) : Option (State α) :=
  column.agenda[n]?.bind fun found => (column.segment found.1).states[found.2]?

def size (column : IndexedColumn α) : Nat := column.keys.size

/-- The answers of the column; a segment without states is not asked, unless it is the first. -/
def view (column : IndexedColumn α) : Answers α :=
  .merge column.scanned.answers (column.completed.nonempty?.map (·.answers))
    (column.predicted.nonempty?.map (·.answers))

end IndexedColumn

end JavaFrontend
