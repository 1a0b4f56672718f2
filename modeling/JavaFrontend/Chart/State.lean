import JavaFrontend.Grammar.Basic

/-!
States of a chart: rules that are matched up to a dot. What the parts before the dot were matched
with is of any type; a recogniser needs no more than its length.
-/

namespace JavaFrontend

/-- What tells the states of one column apart. -/
structure StateKey where
  rule : Nat
  dot : Nat
  origin : Nat
deriving DecidableEq, Hashable, Repr

/-- A rule that is matched up to a dot, from the column `origin` on. -/
structure State (α : Type) where
  rule : Nat
  origin : Nat
  /-- What each part before the dot was matched with. -/
  matched : List α

namespace State

variable {α : Type}

/-- The rule with the dot in front of its first part. -/
def predicted (rule origin : Nat) : State α := ⟨rule, origin, []⟩

/-- How many parts are before the dot. -/
def dot (state : State α) : Nat := state.matched.length

def key (state : State α) : StateKey := ⟨state.rule, state.dot, state.origin⟩

/-- The part behind the dot; none if the rule is completed. -/
def next? (state : State α) (grammar : Grammar) : Option Part :=
  grammar.partAt? state.rule state.dot

def isCompleted (state : State α) (grammar : Grammar) : Bool := (state.next? grammar).isNone

/-- Moves the dot over the part behind it, which was matched with `found`. -/
def advance (state : State α) (found : α) : State α :=
  { state with matched := state.matched ++ [found] }

@[simp] theorem dot_predicted (rule origin : Nat) : (predicted rule origin : State α).dot = 0 := rfl

@[simp] theorem dot_advance (state : State α) (found : α) :
    (state.advance found).dot = state.dot + 1 := by
  simp [dot, advance]

end State

end JavaFrontend
