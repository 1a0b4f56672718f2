import JavaFrontend.Grammar.Basic
import JavaFrontend.Grammar.Expansion
import JavaFrontend.Reduction.Operands

/-!
How the completed rules of a grammar become nodes. A rule for a single name passes its operand
through, the rules of a repetition collect lists, and every other rule needs a constructor for its
collection.
-/

namespace JavaFrontend

/-- What becomes of a completed rule. -/
inductive Reduction where
  | construct (constructor : OperandM Node)
  | passThrough
  | repetition
  | missing

/-- What becomes of each rule of a grammar, by the numbers of the rules. -/
structure TreeBuilder where
  reductions : Array (Rule × Reduction)
  /-- Whether repetitions keep the tokens between their items. -/
  keepTokens : Bool

namespace TreeBuilder

/-- Whether rules of this name belong to a repetition. -/
def isRepetition (name : String) : Bool := repetitionPrefix.toList.isPrefixOf name.toList

/-- What becomes of the rule, given the constructors by name. -/
def reductionOf (constructor? : String → Option (OperandM Node)) (rule : Rule) : Reduction :=
  if isRepetition rule.name then .repetition
  else if rule.unitTarget?.isSome then .passThrough
  else
    match constructor? rule.name with
    | some constructor => .construct constructor
    | none => .missing

def ofGrammar (grammar : Grammar) (constructor? : String → Option (OperandM Node))
    (keepTokens : Bool) : TreeBuilder :=
  { reductions := grammar.rules.map fun rule => (rule, reductionOf constructor? rule), keepTokens }

/-- A builder without any constructor. -/
def bare (grammar : Grammar) : TreeBuilder := ofGrammar grammar (fun _ => none) false

/-- Holds the operands of any rule. -/
def genericNode : OperandM Node := do
  let children ← OperandM.rest
  return .generic (← OperandM.rule) children

/-- A builder for any grammar. The leaves of what it builds are the tokens that were parsed. -/
def generic (grammar : Grammar) : TreeBuilder := ofGrammar grammar (fun _ => some genericNode) true

/-- The names of the rules without a reduction, each run of equal names once. -/
def missing (builder : TreeBuilder) : List String :=
  let names := builder.reductions.toList.filterMap fun
    | (rule, .missing) => some rule.name
    | _ => none
  names.eraseReps

/-- The items that the body of a repetition adds to the list. Tokens between items are dropped; of
a body of tokens alone, the first is the item. -/
def bodyItems (keepTokens : Bool) (body : List Node) : List Node :=
  if keepTokens then body
  else if body.all Node.isToken then body.take 1
  else body.filter (!·.isToken)

/-- A repetition begins a list with its first body, and the left-recursive rule adds to the list it
has got. -/
def repeatedNode (keepTokens : Bool) (rule : Rule) (operands : List Node) :
    Except ReduceError Node :=
  if rule.isLeftRecursive then
    match operands with
    | [] => .error (.missingOperand rule.name)
    | .list element items :: body => .ok (.list element (items ++ bodyItems keepTokens body))
    | other :: _ => .error (.unexpectedOperand rule.name "a repetition" other.kindName)
  else .ok (.list rule.name (bodyItems keepTokens operands))

/-- The node for the completed rule with the number, given what its parts were matched with. -/
def reduce (builder : TreeBuilder) (id : Nat) (operands : List Node) : Except ReduceError Node :=
  match builder.reductions[id]? with
  | none => .error (.noReduction "<unknown>")
  | some (rule, .missing) => .error (.noReduction rule.name)
  | some (rule, .passThrough) =>
    match operands with
    | [] => .error (.missingOperand rule.name)
    | operand :: _ => .ok operand
  | some (rule, .repetition) => repeatedNode builder.keepTokens rule operands
  | some (rule, .construct constructor) => (constructor.run ⟨rule.name, operands⟩).1

end TreeBuilder

end JavaFrontend
