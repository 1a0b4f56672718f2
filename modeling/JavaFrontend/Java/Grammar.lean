import JavaFrontend.Grammar.Draft
import JavaFrontend.Java.Grammar.Declarations
import JavaFrontend.Java.Grammar.Expressions
import JavaFrontend.Java.Grammar.Statements
import JavaFrontend.Java.Grammar.Types
import JavaFrontend.Java.Grammar.Units

/-!
The grammar of Java sources. It has no goal of its own: a goal is put in front of it, so that the
same rules serve for whole files and for fragments such as one expression. Every collection has a
way of building its tree or consists of single names.
-/

namespace JavaFrontend.Java.Grammar

/-- All the rules, without a goal. -/
def rules : List Alternative := units ++ types ++ declarations ++ statements ++ expressions

/-- The name of the goal that is put in front of the rules. -/
def goalName : String := "Goal"

/-- The rules that the goal needs. -/
def withGoal (goal : Element) : GrammarDraft where
  alternatives := ⟨goalName, [goal, token .endOfInput]⟩ :: rules
  start := some goalName
  prune := true

/-- The grammar of whole source files, which may be empty. -/
def forUnits : Except GrammarError JavaFrontend.Grammar :=
  (withGoal (maybe ["CompilationUnit"])).build

/-- The grammar of the fragments that are called `name`. -/
def forGoal (name : String) : Except GrammarError JavaFrontend.Grammar :=
  (withGoal (.rule name)).build

end JavaFrontend.Java.Grammar
