import JavaFrontend.Grammar.Element

/-!
How the rules of the Java grammar are written down: a string is a reference to a rule.
-/

namespace JavaFrontend.Java.Grammar

instance : Coe String Element where
  coe := .rule

def token (kind : Kind) : Element := .token kind

/-- An optional group. -/
def maybe (body : List Element) : Element := .optional body

/-- A repeated group. -/
def many (body : List Element) : Element := .repeated body

/-- The alternatives of one name. -/
def define (name : String) (alternatives : List (List Element)) : List Alternative :=
  alternatives.map fun elements => ⟨name, elements⟩

end JavaFrontend.Java.Grammar
