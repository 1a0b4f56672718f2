import JavaFrontend.Reduction.Error
import JavaFrontend.Reduction.Node

/-!
The operands of a completed rule, which a reduction consumes from front to back. Many of a rule's
parts are optional, so there are two ways to ask for an operand: as one that must be there, and as
one that is taken only if it is next. What was consumed stays consumed when a demand fails.
-/

namespace JavaFrontend

open Java

/-- The operands that are left, and the rule they belong to. -/
structure Operands where
  rule : String
  items : List Node

/-- A step of a reduction. -/
abbrev OperandM := ExceptT ReduceError (StateM Operands)

namespace OperandM

def rule : OperandM String := return (← get).rule

def count : OperandM Nat := return (← get).items.length

/-- The next operand, which stays. -/
def peek : OperandM (Option Node) := return (← get).items.head?

/-- Whether the next operand is a token of the kind. -/
def nextIs (kind : Kind) : OperandM Bool := return (← peek).bind Node.tokenKind? == some kind

/-- Whether any operand that is left is a token of the kind. -/
def anyIs (kind : Kind) : OperandM Bool :=
  return (← get).items.any (·.tokenKind? == some kind)

def next : OperandM Node := do
  match (← get).items with
  | [] => throw (.missingOperand (← rule))
  | node :: items => do
    modify ({ · with items })
    return node

/-- All operands that are left. -/
def rest : OperandM (List Node) := do
  let items := (← get).items
  modify ({ · with items := [] })
  return items

/-- The operands up to the first that `stop` stops at, which stays. -/
def takeUntil (stop : Node → Bool) : OperandM (List Node) := do
  let items := (← get).items
  modify ({ · with items := items.dropWhile (!stop ·) })
  return items.takeWhile (!stop ·)

/-- Fails because a node is not what was expected. -/
def mismatch {α : Type} (expected : String) (found : Node) : OperandM α := do
  throw (.unexpectedOperand (← rule) expected found.kindName)

/-- The operand as what `select` finds it to be, the node itself staying as it is if nothing. -/
def ofNode {α : Type} (expected : String) (select : Node → Option α) (node : Node) : OperandM α :=
  match select node with
  | some value => return value
  | none => mismatch expected node

/-- The next operand, which must be one that `select` selects. -/
def nextAs {α : Type} (expected : String) (select : Node → Option α) : OperandM α := do
  ofNode expected select (← next)

/-- The next operand if `select` selects it; otherwise it stays. -/
def take? {α : Type} (select : Node → Option α) : OperandM (Option α) := do
  match (← peek).bind select with
  | none => return none
  | some value => do
    let _ ← next
    return some value

/-- All items as what `select` finds them to be. -/
def allAs {α : Type} (expected : String) (select : Node → Option α) (nodes : List Node) :
    OperandM (List α) :=
  nodes.mapM (ofNode expected select)

/-- All operands that are left, without tokens and with the items of lists in place of the
lists. -/
def items : OperandM (List Node) :=
  return ((← rest).filter (!·.isToken)).flatMap Node.items

/-! ### Tokens -/

def token? : Node → Option Token
  | .token token => some token
  | _ => none

def tokenOf? (kind : Kind) (node : Node) : Option Token :=
  (token? node).filter (·.kind == kind)

def token : OperandM Token := nextAs "token" token?

/-- The next operand, which must be a token of the kind. -/
def expect (kind : Kind) : OperandM Token := nextAs kind.text (tokenOf? kind)

/-- The next operand if it is a token of the kind. -/
def eat? (kind : Kind) : OperandM (Option Token) := take? (tokenOf? kind)

/-- Drops the tokens that come next. -/
def skipTokens : OperandM Unit :=
  modify fun ops => { ops with items := ops.items.dropWhile (·.isToken) }

/-! ### Names, expressions, types and blocks -/

def identifier? : Node → Option Identifier
  | .identifier identifier => some identifier
  | _ => none

def identifier : OperandM Identifier := nextAs "identifier" identifier?

def takeIdentifier : OperandM (Option Identifier) := take? identifier?

/-- A name; a single identifier is one too. -/
def name : OperandM QualifiedName :=
  nextAs "name" fun
    | .name name => some name
    | .identifier identifier => some (.ofIdentifier identifier)
    | _ => none

def expr : OperandM Expr := nextAs "expression" Node.expr?

/-- The next operand if it is an expression, but not if it is an identifier alone. -/
def takeExpr : OperandM (Option Expr) :=
  take? fun
    | .identifier _ => none
    | node => node.expr?

def type? : Node → Option TypeExpr
  | .type type => some type
  | _ => none

def type : OperandM TypeExpr := nextAs "type" type?

def takeType : OperandM (Option TypeExpr) := take? type?

def block : OperandM Block :=
  nextAs "block" fun
    | .block block => some block
    | _ => none

/-! ### Optional parts -/

/-- The number of dimensions, none if they are left out. -/
def dims : OperandM Nat := do
  let count ← take? fun
    | .dims count => some count
    | _ => none
  return count.getD 0

def modifier? : Node → Option (Tree .modifier)
  | .modifier modifier => some modifier
  | .annotationUse annotationUse => some (.annotationModifier annotationUse)
  | _ => none

def annotationUse? : Node → Option AnnotationUse
  | .annotationUse annotationUse => some annotationUse
  | _ => none

/-- The items of a node of which the first is one that `select` selects. -/
def itemsIf {α : Type} (select : Node → Option α) (node : Node) : Option (List Node) :=
  match node.items with
  | [] => none
  | first :: more => if (select first).isSome then some (first :: more) else none

/-- A repetition of items that `select` selects, told by the first of them; none if it is left
out. -/
def repetition {α : Type} (expected : String) (select : Node → Option α) : OperandM (List α) := do
  match ← take? (itemsIf select) with
  | none => return []
  | some nodes => allAs expected select nodes

def modifiers : OperandM (List (Tree .modifier)) := repetition "modifier" modifier?

def annotations : OperandM (List AnnotationUse) := repetition "annotation" annotationUse?

def typeArguments : OperandM (List (Tree .typeArgument)) := do
  let arguments ← take? fun
    | .typeArguments arguments => some arguments
    | _ => none
  return arguments.getD []

def typeParameters : OperandM (List (Tree .typeParameter)) := do
  let parameters ← take? fun
    | .typeParameters parameters => some parameters
    | _ => none
  return parameters.getD []

/-! ### Lists -/

def arguments? : Node → Option (List Expr)
  | .arguments arguments => some arguments
  | _ => none

def arguments : OperandM (List Expr) := nextAs "arguments" arguments?

/-- All operands that are left, apart from tokens, as expressions. -/
def exprs : OperandM (List Expr) := do allAs "expression" Node.expr? (← items)

/-- All operands that are left, apart from tokens, as types. -/
def types : OperandM (List TypeExpr) := do allAs "type" type? (← items)

end OperandM

end JavaFrontend
