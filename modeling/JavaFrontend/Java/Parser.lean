import JavaFrontend.Java.Reduction
import JavaFrontend.Parse.Attempts

/-!
Parsers that build nodes, and those for Java among them.
-/

namespace JavaFrontend

/-- What a parser makes of tokens and rules if it builds nodes. -/
def TreeBuilder.interpretation (builder : TreeBuilder) : Interpretation Node where
  leaf := Node.ofToken
  reduce := builder.reduce

namespace Parser

/-- The parser for the grammar that builds nodes in the given way. -/
def ofBuilder (grammar : Grammar) (builder : TreeBuilder) : Parser Node :=
  { grammar, interpretation := builder.interpretation }

/-- The parser for the grammar that builds generic nodes. -/
def generic (grammar : Grammar) : Parser Node := ofBuilder grammar (.generic grammar)

end Parser

namespace Java

/-- The parser for whole source files. -/
def unitParser : Except GrammarError (Parser Node) := do
  let grammar ← Grammar.forUnits
  return .ofBuilder grammar (Reduction.builder grammar)

/-- The parser for the fragments that are called `goal`. -/
def fragmentParser (goal : String) : Except GrammarError (Parser Node) := do
  let grammar ← Grammar.forGoal goal
  return .ofBuilder grammar (Reduction.builder grammar)

end Java

end JavaFrontend
