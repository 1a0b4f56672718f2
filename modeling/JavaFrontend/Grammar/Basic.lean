import JavaFrontend.Token.Kind

/-!
Context-free grammars over token kinds. The rules are numbered through; those of one name stand
together and form a collection, in the order in which they are tried.
-/

namespace JavaFrontend

/-- One symbol on the right of a rule. -/
inductive Part where
  | token (kind : Kind)
  | rule (name : String)
deriving DecidableEq, Repr

namespace Part

def display : Part → String
  | .token kind => kind.display
  | .rule name => name

/-- The name that the part refers to. -/
def ruleName? : Part → Option String
  | .token _ => none
  | .rule name => some name

/-- The kind of token that the part stands for. -/
def kind? : Part → Option Kind
  | .token kind => some kind
  | .rule _ => none

end Part

/-- A rule `name -> parts`. -/
structure Rule where
  name : String
  parts : List Part
deriving DecidableEq, Repr, Inhabited

namespace Rule

def size (rule : Rule) : Nat := rule.parts.length

/-- The right side of a rule that consists of a single name. -/
def unitTarget? (rule : Rule) : Option String :=
  match rule.parts with
  | [.rule name] => some name
  | _ => none

/-- Whether the rule has the form `X -> X ...`, with something after the second `X`. -/
def isLeftRecursive (rule : Rule) : Bool :=
  match rule.parts with
  | .rule name :: _ :: _ => name == rule.name
  | _ => false

def display (rule : Rule) : String :=
  rule.parts.foldl (fun text part => text ++ " " ++ part.display) (rule.name ++ " ->")

end Rule

/-- The rules of one name: their right sides, and the number of the first of them. -/
structure Collection where
  name : String
  first : Nat
  productions : List (List Part)
deriving DecidableEq, Repr

namespace Collection

/-- The numbers of the rules of the collection. -/
def ruleIds (collection : Collection) : List Nat :=
  List.range' collection.first collection.productions.length

def rules (collection : Collection) : List Rule :=
  collection.productions.map fun parts => ⟨collection.name, parts⟩

end Collection

/-- A grammar. Its names include names of collections that were left out as unreachable. -/
structure Grammar where
  start : String
  collections : List Collection
  names : List String
  /-- All rules by number. -/
  rules : Array Rule := (collections.flatMap Collection.rules).toArray
  rules_eq : rules = (collections.flatMap Collection.rules).toArray := by rfl

namespace Grammar

def rule? (grammar : Grammar) (id : Nat) : Option Rule := grammar.rules[id]?

def collection? (grammar : Grammar) (name : String) : Option Collection :=
  grammar.collections.find? (·.name == name)

/-- Whether the grammar knows the name at all. -/
def knows (grammar : Grammar) (name : String) : Bool := grammar.names.contains name

/-- What stands at the dot of the rule, unless the dot is at its end. -/
def partAt? (grammar : Grammar) (id dot : Nat) : Option Part :=
  (grammar.rule? id).bind (·.parts[dot]?)

end Grammar

end JavaFrontend
