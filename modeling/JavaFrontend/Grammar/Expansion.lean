import JavaFrontend.Grammar.Basic
import JavaFrontend.Grammar.Element
import JavaFrontend.Grammar.Error

/-!
Expansion of groups into plain rules. An optional group makes two alternatives of one, the one
without the group first. A repeated group becomes a name of its own, with a left-recursive rule,
that is itself optional; equal bodies share one name. So `A ::= x [y] z` stands for `A -> x z` and
`A -> x y z`, and `A ::= x {y}` for `A -> x`, `A -> x R`, `R -> y` and `R -> R y`.
-/

namespace JavaFrontend

/-- What the names of repetitions start with. -/
def repetitionPrefix : String := "ZOM_"

/-- The right side of a plain rule. -/
abbrev Production := List Part

/-- The right sides found so far, by name and in the order of first use, and the names that the
bodies of repeated groups have got. -/
structure Expansion where
  productions : List (String × List Production) := []
  repetitions : List (List Element × String) := []

namespace Expansion

/-- Adds a right side for the name, unless it is there. -/
def insert (name : String) (production : Production) :
    List (String × List Production) → List (String × List Production)
  | [] => [(name, [production])]
  | (other, known) :: rest =>
    if other = name then
      (other, if production ∈ known then known else known ++ [production]) :: rest
    else (other, known) :: insert name production rest

def add (name : String) (production : Production) (expansion : Expansion) : Expansion :=
  { expansion with productions := insert name production expansion.productions }

/-- Each sequence on its own and then followed by each of the bodies. -/
def withOptional (sequences bodies : List Production) : List Production :=
  sequences.flatMap fun sequence => sequence :: bodies.map (sequence ++ ·)

end Expansion

/-- Expansion in progress. -/
abbrev ExpansionM := StateT Expansion (Except GrammarError)

namespace ExpansionM

open Expansion

/-- Adds the productions that a name's plain sequences are, none of which may be empty. -/
def addAll (name : String) (productionsOf : Production → List Production) :
    List Production → ExpansionM Unit
  | [] => pure ()
  | sequence :: rest => do
    if sequence.isEmpty then throw (.emptyProduction name)
    modify fun expansion => (productionsOf sequence).foldl (fun e p => e.add name p) expansion
    addAll name productionsOf rest

/-- The name for a new body, which is from now on the name of that body. -/
def newRepetition (body : List Element) : ExpansionM String := do
  let expansion ← get
  let name := repetitionPrefix ++ toString (expansion.repetitions.length + 1)
  set { expansion with repetitions := expansion.repetitions ++ [(body, name)] }
  return name

mutual

/-- What the sequences become when the element is put behind each of them. -/
def appendElement (sequences : List Production) : Element → ExpansionM (List Production)
  | .token kind => return sequences.map (· ++ [.token kind])
  | .rule name => return sequences.map (· ++ [.rule name])
  | .optional body => do
    let bodies ← appendElements [[]] body
    return withOptional sequences bodies
  | .repeated body => do
    let name ← match (← get).repetitions.lookup body with
      | some name => pure name
      | none => do
        let name ← newRepetition body
        let bodies ← appendElements [[]] body
        addAll name (fun sequence => [sequence, .rule name :: sequence]) bodies
        pure name
    return withOptional sequences [[.rule name]]

/-- What the sequences become when the elements are put behind each of them in turn. -/
def appendElements (sequences : List Production) : List Element → ExpansionM (List Production)
  | [] => return sequences
  | element :: rest => do
    let sequences ← appendElement sequences element
    appendElements sequences rest

end

/-- The plain sequences that the elements stand for, those without optional parts first. -/
def expand (elements : List Element) : ExpansionM (List Production) := appendElements [[]] elements

def addAlternative (alternative : Alternative) : ExpansionM Unit := do
  let sequences ← expand alternative.elements
  addAll alternative.name (fun sequence => [sequence]) sequences

end ExpansionM

/-- The expansion of all the alternatives, in order. -/
def Expansion.ofAlternatives? (alternatives : List Alternative) : Except GrammarError Expansion :=
  return ((← (alternatives.forM ExpansionM.addAlternative).run {})).2

end JavaFrontend
