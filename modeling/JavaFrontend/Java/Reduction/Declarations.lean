import JavaFrontend.Reduction.Operands

/-!
Reductions for compilation units, classes, enumerations and interfaces with their members.
-/

namespace JavaFrontend.Java.Reduction

open OperandM

/-! ### Compilation units -/

def package? : Node → Option (Tree .packageDeclaration)
  | .package declaration => some declaration
  | _ => none

def importing? : Node → Option (Tree .importDeclaration)
  | .importing declaration => some declaration
  | _ => none

def typeDeclaration? : Node → Option TypeDeclaration
  | .typeDeclaration declaration => some declaration
  | _ => none

/-- Whether a node may be a part of a compilation unit. Lone semicolons may, and are dropped. -/
def isUnitPart : Node → Bool
  | .package _ | .importing _ | .typeDeclaration _ | .empty _ => true
  | _ => false

/-- The compilation unit with the parts. -/
def unitOf (parts : List Node) : OperandM Node := do
  let parts ← allAs "package, import or type declaration" (Option.guard isUnitPart) parts
  let package := (parts.filterMap package?).getLast?
  return .unit (.unit package (parts.filterMap importing?) (parts.filterMap typeDeclaration?))

/-- The goal of whole source files: a compilation unit even if there is nothing in it, or only a
single part. -/
def unitGoal : OperandM Node := do
  if ← nextIs .endOfInput then return .unit (.unit .absent .nil .nil)
  match ← next with
  | .unit unit => return .unit unit
  | part => unitOf [part]

def compilationUnit : OperandM Node := do unitOf (← items)

def packageDeclaration : OperandM Node := do
  let annotations ← annotations
  let _ ← expect .packageWord
  return .package (.packageDeclaration annotations (← name))

def importDeclaration : OperandM Node := do
  let _ ← expect .importWord
  let isStatic := (← eat? .staticWord).isSome
  let name ← name
  return .importing (.importDeclaration name isStatic (← anyIs .star))

/-! ### Types and their bodies -/

def superclass : OperandM Node := do
  let _ ← expect .extendsWord
  return .superclass (← type)

/-- The types after `implements`, or after the `extends` of an interface. -/
def interfaces : OperandM Node := do
  let _ ← token
  return .interfaces (← types)

def takeSuperclass : OperandM (Option TypeExpr) :=
  take? fun
    | .superclass type => some type
    | _ => none

def takeInterfaces : OperandM (List TypeExpr) := do
  let types ← take? fun
    | .interfaces types => some types
    | _ => none
  return types.getD []

def takeExceptions : OperandM (List TypeExpr) := do
  let types ← take? fun
    | .exceptions types => some types
    | _ => none
  return types.getD []

def classBody? : Node → Option ClassBody
  | .classBody body => some body
  | _ => none

def classDeclaration : OperandM Node := do
  let modifiers ← modifiers
  let _ ← expect .classWord
  let name ← identifier
  let typeParameters ← typeParameters
  let superclass ← takeSuperclass
  let interfaces ← takeInterfaces
  let body ← nextAs "class body" classBody?
  return .typeDeclaration
    (.classDeclaration modifiers name typeParameters superclass interfaces body)

def interfaceDeclaration : OperandM Node := do
  let modifiers ← modifiers
  let _ ← expect .interfaceWord
  let name ← identifier
  let typeParameters ← typeParameters
  let interfaces ← takeInterfaces
  let body ← nextAs "class body" classBody?
  return .typeDeclaration (.interfaceDeclaration modifiers name typeParameters interfaces body)

/-- The members among the nodes. Lone semicolons are dropped, all else must be a member. -/
def membersOf (nodes : List Node) : OperandM (List (Tree .member)) := do
  let members ← allAs "member" (fun
    | .empty _ => some none
    | node => node.member?.map some) nodes
  return members.filterMap id

def classBody : OperandM Node := do
  let position := (← expect .leftBrace).position
  let members ← membersOf (← items)
  return .classBody (.classBody members position)

def staticInitializer : OperandM Node := do
  let _ ← expect .staticWord
  return .member (.initializer true (← block))

/-! ### Members -/

def declarator? : Node → Option (Tree .declarator)
  | .declarator declarator => some declarator
  | _ => none

/-- Modifiers, a type and variables of that type. -/
def varDeclaration : OperandM (Tree .varDeclaration) := do
  let modifiers ← modifiers
  let type ← type
  let declarators ← allAs "variable declarator" declarator? (← next).items
  return .varDeclaration modifiers type declarators

def fieldDeclaration : OperandM Node := return .member (.field (← varDeclaration))

def variableDeclarator : OperandM Node := do
  let .declarator name dims _ ← nextAs "variable declarator" declarator?
  let _ ← expect .assign
  let initial ← expr
  return .declarator (.declarator name dims (.present initial))

def variableDeclaratorId : OperandM Node := do
  let name ← identifier
  return .declarator (.declarator name (← dims) .absent)

def parameter? : Node → Option (Tree .parameter)
  | .parameter parameter => some parameter
  | _ => none

/-- The parameters of a method, if it has any. -/
def takeParameters : OperandM (List (Tree .parameter)) := do
  let nodes ← take? fun
    | .parameter parameter => some [.parameter parameter]
    | .list _ nodes => some nodes
    | _ => none
  allAs "formal parameter" parameter? (nodes.getD [])

/-- What a method has as its result: a type, or none for `void`. -/
def result? : Node → Option (Option TypeExpr)
  | .type type => some (some type)
  | .token token => if token.kind = .voidWord then some none else none
  | _ => none

/-- What a method has as its body: a block, or none for a lone semicolon. -/
def methodBody? : Node → Option (Option Block)
  | .block block => some (some block)
  | .empty _ => some none
  | _ => none

def methodDeclaration : OperandM Node := do
  let modifiers ← modifiers
  let typeParameters ← typeParameters
  let result ← nextAs "result type" result?
  let name ← identifier
  let _ ← expect .leftParen
  let parameters ← takeParameters
  let _ ← expect .rightParen
  let dims ← dims
  let exceptions ← takeExceptions
  let body ← nextAs "method body" methodBody?
  return .member (.method modifiers typeParameters (result.map (·.withDims dims)) name parameters
    exceptions body)

def formalParameter : OperandM Node := do
  let modifiers ← modifiers
  let type ← type
  if (← eat? .ellipsis).isSome then
    return .parameter (.parameter modifiers type (← identifier) true)
  let .declarator name dims _ ← nextAs "parameter name" declarator?
  return .parameter (.parameter modifiers (type.withDims dims) name false)

def exceptions : OperandM Node := do
  let _ ← expect .throwsWord
  return .exceptions (← types)

def constructorDeclaration : OperandM Node := do
  let modifiers ← modifiers
  let typeParameters ← typeParameters
  let name ← identifier
  let _ ← expect .leftParen
  let parameters ← takeParameters
  let _ ← expect .rightParen
  let exceptions ← takeExceptions
  let body ← block
  return .member (.constructor modifiers typeParameters name parameters exceptions body)

def constructorCall : OperandM Node := do
  let outer ← takeExpr
  if outer.isSome then
    let _ ← expect .dot
  let typeArguments ← typeArguments
  let token ← token
  let target := if token.kind = .thisWord then .this else .super
  let arguments ← arguments
  return .stmt (.constructorCall target outer typeArguments arguments token.position)

/-! ### Enumerations -/

def enumBody? : Node → Option (List (Tree .enumConstant) × ClassBody)
  | .enumBody constants body => some (constants, body)
  | _ => none

def enumDeclaration : OperandM Node := do
  let modifiers ← modifiers
  let _ ← expect .enumWord
  let name ← identifier
  let interfaces ← takeInterfaces
  let (constants, body) ← nextAs "enum body" enumBody?
  return .typeDeclaration (.enumDeclaration modifiers name interfaces constants body)

def enumConstant? : Node → Option (Tree .enumConstant)
  | .enumConstant constant => some constant
  | _ => none

def isEnumPart (node : Node) : Bool := (enumConstant? node).isSome || (classBody? node).isSome

/-- The constants and the body of an enumeration. Without members after the constants the body is
empty and stands at the opening brace. -/
def enumBody : OperandM Node := do
  let position := (← expect .leftBrace).position
  let parts ← allAs "enum constant" (Option.guard isEnumPart) (← items)
  let body := (parts.filterMap classBody?).getLast?.getD (.classBody .nil position)
  return .enumBody (parts.filterMap enumConstant?) body

def enumConstant : OperandM Node := do
  let annotations ← annotations
  let name ← identifier
  let arguments ← take? arguments?
  let body ← take? classBody?
  match arguments with
  | some arguments => return .enumConstant (.constantWith annotations name arguments body)
  | none => return .enumConstant (.plainConstant annotations name body)

def enumBodyDeclarations : OperandM Node := do
  let position := (← expect .semicolon).position
  let members ← membersOf (← items)
  return .classBody (.classBody members position)

end JavaFrontend.Java.Reduction
