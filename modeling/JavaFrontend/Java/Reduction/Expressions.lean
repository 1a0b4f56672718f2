import JavaFrontend.Java.Place
import JavaFrontend.Java.Reduction.Declarations
import JavaFrontend.Java.Reduction.Statements

/-!
Reductions for expressions.
-/

namespace JavaFrontend.Java.Reduction

open OperandM

/-- `this`, `Outer.this` and an expression in parentheses, which leave no trace. -/
def primary : OperandM Node := do
  match ← eat? .thisWord with
  | some this => return .expr (.thisExpr this.position)
  | none =>
    if (← eat? .leftParen).isSome then return .expr (← expr)
    return .expr (.qualifiedThis (← name))

/-- The class type with the name, in which no segment has type arguments. -/
def namedType (name : QualifiedName) : TypeExpr :=
  .classType (.ofList (name.parts.map fun part => Tree.segment .nil part .nil))

/-- What the part before `.class` is, and where: `void`, a name or another type. -/
def classLiteralType? : Node → Option (Option TypeExpr × Position)
  | .token token => some (none, token.position)
  | .name name => some (some (namedType name), name.position)
  | .type type => some (some type, type.place)
  | _ => none

def classLiteral : OperandM Node := do
  let (type, position) ← nextAs "class literal type" classLiteralType?
  let dims ← dims
  return .expr (.classLiteral (type.map (·.withDims dims)) position)

/-! ### Objects and arrays -/

/-- `outer.new Inner()` -/
def qualifiedCreation : OperandM Node := do
  let outer ← expr
  let _ ← expect .dot
  match ← expr with
  | .creation _ typeArguments type diamond arguments body position =>
    return .expr
      (.creation (.present outer) typeArguments type diamond arguments body position)
  | other => mismatch "class instance creation" (.expr other)

def creation : OperandM Node := do
  let position := (← expect .newWord).position
  let typeArguments ← typeArguments
  let type ← type
  let diamond ← take? fun
    | .diamond => some ()
    | _ => none
  let arguments ← arguments
  let body ← take? classBody?
  return .expr (.creation .absent typeArguments type diamond.isSome arguments body position)

def diamond : OperandM Node := return .diamond

def argumentList : OperandM Node := return .arguments (← exprs)

def arrayInitializer : OperandM Node := return .expr (.arrayInitializer (← exprs))

def arrayCreation : OperandM Node := do
  let _ ← expect .newWord
  let element ← type
  match ← next with
  | .dims dims =>
    match ← expr with
    | .arrayInitializer values => return .expr (.newArrayOf element dims values)
    | other => mismatch "array initializer" (.expr other)
  | node =>
    let lengths ← exprsOf node
    return .expr (.newArray element lengths (← dims))

/-- The length of one dimension of a new array. -/
def dimensionLength : OperandM Node := do
  let _ ← expect .leftBracket
  return .expr (← expr)

/-! ### Fields and methods -/

/-- The part before a dot or a double colon: a name, `super`, `Outer.super`, a type or another
expression. -/
def receiver (separator : Kind) : OperandM (Tree .receiver) := do
  let node ← next
  let receiver : Tree .receiver ←
    match node with
    | .name name =>
      if (← nextIs .dot) && (← anyIs .superWord) then do
        let _ ← expect .dot
        let _ ← expect .superWord
        pure (.qualifiedSuper name)
      else pure (.nameReceiver name)
    | .type type => pure (.typeReceiver type)
    | node =>
      match tokenOf? .superWord node with
      | some token => pure (.superReceiver token.position)
      | none => pure (.exprReceiver (← ofNode "receiver" Node.expr? node))
  let _ ← expect separator
  return receiver

def fieldAccess : OperandM Node := do
  let receiver ← receiver .dot
  return .expr (.fieldAccess receiver (← identifier))

def arrayAccess : OperandM Node := do
  let array ← expr
  let _ ← expect .leftBracket
  return .expr (.arrayAccess array (← expr))

/-- A call. The name of one without a receiver of its own is all in the first operand: what stands
before its last dot is the receiver. -/
def methodInvocation : OperandM Node := do
  if (← count) = 2 then
    let name ← name
    let arguments ← arguments
    match name.qualifier? with
    | none => return .expr (.call name.last arguments)
    | some qualifier => return .expr (.callOn (.nameReceiver qualifier) .nil name.last arguments)
  let receiver ← receiver .dot
  let typeArguments ← typeArguments
  let name ← identifier
  let arguments ← arguments
  return .expr (.callOn receiver typeArguments name arguments)

def methodReference : OperandM Node := do
  let receiver ← receiver .doubleColon
  let typeArguments ← typeArguments
  if (← eat? .newWord).isSome then
    return .expr (.methodReference receiver typeArguments none)
  return .expr (.methodReference receiver typeArguments (some (← identifier)))

/-! ### Lambdas -/

def lambdaParameters? : Node → Option (Tree .lambdaParameters)
  | .lambdaParameters parameters => some parameters
  | _ => none

/-- Where the first parameter has its name, if there is one. -/
def firstParameter? : Tree .lambdaParameters → Option Position
  | .inferredParameters names => names.head?.map (·.position)
  | .formalParameters (.cons (.parameter _ _ name _) _) => some name.position
  | .formalParameters .nil => none

def lambda : OperandM Node := do
  let parameters ← nextAs "lambda parameters" lambdaParameters?
  let arrow ← expect .arrow
  let position := (firstParameter? parameters).getD arrow.position
  match ← next with
  | .block body => return .expr (.blockLambda parameters body position)
  | node => return .expr (.lambda parameters (← ofNode "expression" Node.expr? node) position)

def isLambdaPart (node : Node) : Bool :=
  node.isToken || (identifier? node).isSome || (parameter? node).isSome

/-- Parameters with types if there are any, otherwise names alone. -/
def lambdaParameters : OperandM Node := do
  let parts ← allAs "lambda parameter" (Option.guard isLambdaPart) ((← rest).flatMap Node.items)
  match parts.filterMap parameter? with
  | [] => return .lambdaParameters (.inferredParameters (parts.filterMap identifier?))
  | parameters => return .lambdaParameters (.formalParameters parameters)

/-! ### Operators -/

def assignment : OperandM Node := do
  let target ← expr
  let operator := (← token).kind
  return .expr (.assignment target operator (← expr))

def conditional : OperandM Node := do
  let condition ← expr
  let _ ← expect .question
  let ifTrue ← expr
  let _ ← expect .colon
  return .expr (.conditional condition ifTrue (← expr))

/-- `left op right`, and `value instanceof Type` -/
def binary : OperandM Node := do
  let left ← expr
  let operator := (← token).kind
  if operator = .instanceofWord then return .expr (.instanceOf left (← type))
  return .expr (.binary left operator (← expr))

/-- An operator before its operand. -/
def leading : OperandM Node := do
  let operator := (← token).kind
  return .expr (.leading operator (← expr))

/-- An operator after its operand. -/
def trailing : OperandM Node := do
  let operand ← expr
  return .expr (.trailing operand (← token).kind)

/-- `(Type) e` and `(A & B) e` -/
def cast : OperandM Node := do
  let _ ← expect .leftParen
  let type ← type
  let more ← takeUntil fun node => (tokenOf? .rightParen node).isSome
  let others ← allAs "type" type? (more.flatMap Node.items)
  let _ ← expect .rightParen
  return .expr (.cast (.cons type others) (← expr))

end JavaFrontend.Java.Reduction
