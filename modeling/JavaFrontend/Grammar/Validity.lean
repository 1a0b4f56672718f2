import JavaFrontend.Grammar.Error
import JavaFrontend.Grammar.Reachability

/-!
What makes a grammar fit for use: its start and all names in its rules are defined, no rule is
empty, and every collection can be reached from the start. Faults are looked for in this order.
-/

namespace JavaFrontend.Grammar

/-- The right sides of the rules by name. -/
def productions (grammar : Grammar) : List (String × List (List Part)) :=
  grammar.collections.map fun collection => (collection.name, collection.productions)

/-- The first name in a rule that is not defined. -/
def undefinedReference? (grammar : Grammar) : Option GrammarError :=
  let defined := Std.HashSet.ofList (grammar.collections.map (·.name))
  grammar.rules.toList.findSome? fun rule =>
    rule.parts.findSome? fun part =>
      match part.ruleName? with
      | some name => if defined.contains name then none else some (.undefinedRule rule.name name)
      | none => none

def emptyRule? (grammar : Grammar) : Option GrammarError :=
  (grammar.rules.toList.find? (·.parts.isEmpty)).map fun rule => .emptyProduction rule.name

def unreachable? (grammar : Grammar) : Option GrammarError :=
  let reached := Reachability.reachable grammar.start grammar.productions
  (grammar.collections.find? fun collection => !reached.contains collection.name).map
    fun collection => .unreachableRule collection.name

/-- The first fault of the grammar. -/
def fault? (grammar : Grammar) : Option GrammarError :=
  if (grammar.collection? grammar.start).isNone then some (.missingStart grammar.start)
  else grammar.undefinedReference? <|> grammar.emptyRule? <|> grammar.unreachable?

end JavaFrontend.Grammar
