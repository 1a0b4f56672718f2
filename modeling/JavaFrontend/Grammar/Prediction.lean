import JavaFrontend.Grammar.Basic
import Std.Data.HashMap

/-!
Which rules to try for a name: those of its collection, in order.
-/

namespace JavaFrontend

/-- The numbers of the rules for each name. -/
structure Predictions where
  table : Std.HashMap String (List Nat)

namespace Predictions

def ofGrammar (grammar : Grammar) : Predictions :=
  ⟨.ofList (grammar.collections.map fun collection => (collection.name, collection.ruleIds))⟩

/-- The rules to try for the name; none if it is unknown. -/
def get (predictions : Predictions) (name : String) : List Nat := predictions.table.getD name []

def size (predictions : Predictions) : Nat := predictions.table.size

end Predictions

end JavaFrontend
