import JavaFrontend.Reduction.Operands

/-!
Reductions for names, types and annotations, and those that serve rules of several themes.
-/

namespace JavaFrontend.Java.Reduction

open OperandM

/-- The single operand as it is. -/
def first : OperandM Node := next

/-- A lone semicolon. -/
def empty : OperandM Node := return .empty (← token).position

/-- Items with separators as one flat list. -/
def list : OperandM Node := do
  let element ← rule
  return .list element (← items)

/-! ### Names and types -/

def dottedName : OperandM Node := do
  let first ← identifier
  let rest ← allAs "identifier" identifier? (← items)
  return .name ⟨first, rest⟩

/-- A keyword, or annotations in front of a primitive type, which then has them all. -/
def primitiveType : OperandM Node := do
  match (← peek).bind token? with
  | some token =>
    let _ ← next
    return .type (.primitiveType .nil token.kind token.position)
  | none =>
    let nodes ← takeUntil fun node => (type? node).isSome
    let annotations ← allAs "annotation" annotationUse? (nodes.flatMap Node.items)
    match ← type with
    | .primitiveType others kind position =>
      return .type (.primitiveType (annotations ++ others.toList) kind position)
    | other => return .type other

/-- The segments of a class type. -/
def segments? : Node → Option (List (Tree .segment))
  | .type (.classType segments) => some segments.toList
  | _ => none

def classType : OperandM Node := do
  let types ← types
  let segments ← allAs "class type" segments? (types.map .type)
  return .type (.classType segments.flatten)

def simpleClassType : OperandM Node := do
  let annotations ← annotations
  let name ← identifier
  let arguments ← typeArguments
  return .type (.classType [Tree.segment annotations name arguments])

def arrayType : OperandM Node := do
  let element ← type
  return .type (element.withDims (← dims))

/-- One more pair of brackets. The pairs are counted in 32 bits. -/
def arrayDims : OperandM Node := return .dims (((← dims) + 1) % UInt32.size)

def typeArgument? : Node → Option (Tree .typeArgument)
  | .type type => some (.exactArgument type)
  | .typeArgument argument => some argument
  | _ => none

def typeArgumentList : OperandM Node := do
  return .typeArguments (← allAs "type argument" typeArgument? (← items))

def wildcard : OperandM Node := do
  let _ ← expect .question
  if (← eat? .extendsWord).isSome then return .typeArgument (.upperBounded (← type))
  else if (← eat? .superWord).isSome then return .typeArgument (.lowerBounded (← type))
  else return .typeArgument .anyArgument

def typeParameterList : OperandM Node := do
  let parameters ← allAs "type parameter" (fun
    | .typeParameter parameter => some parameter
    | _ => none) (← items)
  return .typeParameters parameters

def typeParameter : OperandM Node := do
  let annotations ← annotations
  let name ← identifier
  let bounds ← if (← eat? .extendsWord).isSome then types else pure []
  return .typeParameter (.typeParameter annotations name bounds)

def additionalBound : OperandM Node := do
  let _ ← expect .ampersand
  return .type (← type)

/-! ### Annotations -/

/-- The element value that a node is: an annotation, or an expression, among others. -/
def elementValue? : Node → Option (Tree .elementValue)
  | .elementValue value => some value
  | .annotationUse annotationUse => some (.annotationElement annotationUse)
  | node => node.expr?.map .elementExpr

def elementPair? : Node → Option (Tree .elementPair)
  | .elementPair pair => some pair
  | _ => none

def annotationUse : OperandM Node := do
  let position := (← expect .at).position
  let name ← name
  match ← items with
  | [] => return .annotationUse (.annotationMarker name position)
  | argument :: more =>
    match elementPair? argument with
    | some pair =>
      let pairs ← allAs "element value pair" elementPair? more
      return .annotationUse (.annotationPairs name (pair :: pairs) position)
    | none =>
      let value ← ofNode "expression" elementValue? argument
      return .annotationUse (.annotationSingle name value position)

def elementPair : OperandM Node := do
  let name ← identifier
  let _ ← expect .assign
  let value ← nextAs "expression" elementValue?
  return .elementPair (.elementPair name value)

def elementArray : OperandM Node := do
  let values ← allAs "expression" elementValue? (← items)
  return .elementValue (.elementArray values)

def modifier : OperandM Node := do
  let token ← token
  return .modifier (.wordModifier token.kind token.position)

end JavaFrontend.Java.Reduction
