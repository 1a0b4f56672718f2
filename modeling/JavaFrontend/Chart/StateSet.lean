import JavaFrontend.Chart.State

/-!
Sets of states, and what a parser asks about them: which states are completed, and which wait for
what. A set keeps the order in which states were inserted, and so does every answer.
-/

namespace JavaFrontend

/-- States in the order in which they were inserted. Equal states may be in it more than once. -/
structure StateSet (α : Type) where
  states : Array (State α) := #[]

namespace StateSet

variable {α : Type}

def size (set : StateSet α) : Nat := set.states.size

def isEmpty (set : StateSet α) : Bool := set.states.isEmpty

/-- The state that was inserted after `n` others. -/
def get? (set : StateSet α) (n : Nat) : Option (State α) := set.states[n]?

def insert (set : StateSet α) (state : State α) : StateSet α := ⟨set.states.push state⟩

/-- The states of all the sets, one set after the other. -/
def merge (sets : List (StateSet α)) : StateSet α :=
  ⟨sets.foldl (fun states set => states ++ set.states) #[]⟩

/-! ### Questions -/

/-- The states with nothing behind the dot. -/
def completed (set : StateSet α) (grammar : Grammar) : List (State α) :=
  set.states.toList.filter (·.isCompleted grammar)

/-- The states with the part behind the dot. -/
def waitingOn (set : StateSet α) (grammar : Grammar) (part : Part) : List (State α) :=
  set.states.toList.filter (·.next? grammar == some part)

/-- What stands behind the dots. -/
def awaited (set : StateSet α) (grammar : Grammar) : List Part :=
  set.states.toList.filterMap (·.next? grammar)

/-- The names behind dots, each once. -/
def awaitedNames (set : StateSet α) (grammar : Grammar) : List String :=
  ((set.awaited grammar).filterMap Part.ruleName?).eraseDups

/-- The kinds behind dots, in the order of the kinds. -/
def awaitedKinds (set : StateSet α) (grammar : Grammar) : List Kind :=
  let awaited := (set.awaited grammar).filterMap Part.kind?
  Kind.all.filter awaited.contains

end StateSet

end JavaFrontend
