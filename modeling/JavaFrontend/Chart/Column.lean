import JavaFrontend.Chart.StateSet
import Std.Data.HashSet

/-!
Columns of a chart: the states that are valid at one place of the input. A column holds at most one
state of each key, namely the first that was inserted, and remembers how each state came into it.
-/

namespace JavaFrontend

/-- How a state came into its column. -/
inductive Segment where
  /-- The dot moved over the token before the column. -/
  | scanned
  /-- The dot moved over a rule that was completed in the column. -/
  | completed
  /-- The rule starts here. -/
  | predicted
deriving DecidableEq, Repr

/-- A state of a column and how it came in. -/
structure Entry (α : Type) where
  segment : Segment
  state : State α

/-- The states that are valid at one place of the input. -/
structure Column (α : Type) where
  /-- The number of tokens before the column. -/
  index : Nat
  /-- The states in the order in which they came in. -/
  entries : Array (Entry α) := #[]
  /-- The names whose rules were asked for here. -/
  marked : Std.HashSet String := ∅
  keys : Std.HashSet StateKey := ∅
  /-- The keys are those of the states. -/
  mem_keys : ∀ key, key ∈ keys ↔ ∃ entry ∈ entries, entry.state.key = key := by simp

namespace Column

variable {α : Type}

def size (column : Column α) : Nat := column.entries.size

def isEmpty (column : Column α) : Bool := column.entries.isEmpty

/-- Whether a state of the key is in the column. -/
def contains (column : Column α) (key : StateKey) : Bool := column.keys.contains key

/-- Inserts the state unless one with its key is there already. -/
def insert (column : Column α) (segment : Segment) (state : State α) : Column α :=
  if column.contains state.key then column
  else
    { column with
      entries := column.entries.push ⟨segment, state⟩
      keys := column.keys.insert state.key
      mem_keys := fun key => by
        simp only [Std.HashSet.mem_insert, column.mem_keys, beq_iff_eq, Array.mem_push]
        constructor
        · rintro (rfl | ⟨entry, mem, rfl⟩)
          · exact ⟨_, .inr rfl, rfl⟩
          · exact ⟨entry, .inl mem, rfl⟩
        · rintro ⟨entry, mem | rfl, rfl⟩
          · exact .inr ⟨entry, mem, rfl⟩
          · exact .inl rfl }

/-- Inserts the states one after the other. -/
def insertAll (column : Column α) (segment : Segment) (states : List (State α)) : Column α :=
  states.foldl (·.insert segment ·) column

def isMarked (column : Column α) (name : String) : Bool := column.marked.contains name

/-- Records that the rules of the name were asked for. -/
def mark (column : Column α) (name : String) : Column α :=
  { column with marked := column.marked.insert name }

/-- The state that came in after `n` others. -/
def get? (column : Column α) (n : Nat) : Option (State α) := column.entries[n]?.map (·.state)

/-- The states that came in in one way. -/
def segment (column : Column α) (segment : Segment) : StateSet α :=
  ⟨column.entries.filterMap fun entry => if entry.segment = segment then some entry.state else none⟩

/-- The states as the parser asks about them: those that were scanned come first, then those that
were completed and at last those that were predicted. -/
def view (column : Column α) : StateSet α :=
  .merge [column.segment .scanned, column.segment .completed, column.segment .predicted]

end Column

end JavaFrontend
