import JavaFrontend.Grammar.Basic
import Std.Data.HashSet

/-!
The names that can be reached from a name by way of the parts of rules.
-/

namespace JavaFrontend.Reachability

/-- Adds the names not seen before, and says which they are. -/
def visit (names : List String) (seen : Std.HashSet String) : List String × Std.HashSet String :=
  names.foldl
    (fun (fresh, seen) name =>
      if seen.contains name then (fresh, seen) else (name :: fresh, seen.insert name))
    ([], seen)

/-- The names seen, and all that can be reached from `frontier` in at most `rounds` steps. -/
def spread (successors : String → List String) :
    (rounds : Nat) → (frontier : List String) → Std.HashSet String → Std.HashSet String
  | 0, _, seen => seen
  | rounds + 1, frontier, seen =>
    let (fresh, seen) := visit (frontier.flatMap successors) seen
    if fresh.isEmpty then seen else spread successors rounds fresh seen

/-- The names to which the productions refer. -/
def references (productions : List (List Part)) : List String :=
  productions.flatMap (·.filterMap Part.ruleName?)

/-- The names reachable from `start` where each name has the given productions. A name without
productions leads nowhere, so no way is longer than there are names with some. -/
def reachable (start : String) (productions : List (String × List (List Part))) :
    Std.HashSet String :=
  let table := Std.HashMap.ofList (productions.map fun (name, sides) => (name, references sides))
  spread (fun name => table.getD name []) (productions.length + 1) [start]
    (Std.HashSet.emptyWithCapacity.insert start)

end JavaFrontend.Reachability
