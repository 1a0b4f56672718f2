import JavaFrontend.Java.Grammar
import JavaFrontend.Proofs.Java.Signatures

/-!
The rules of the Java grammar against the signatures of the reductions. Each collection has a shape
for what its rules are made into. Every alternative of every collection is given to its reduction
as one of the rows of the signature, which makes something of the shape; and what passes through a
rule for a single name is of the shape already.
-/

namespace JavaFrontend

/-! ### Names as numbers -/

/-- A number that no other name has. -/
def code (name : String) : Nat :=
  name.toByteArray.data.toList.foldr (fun byte number => 256 * number + byte.toNat + 1) 0

theorem code_inj {name other : String} (same : code name = code other) : name = other := by
  refine String.toByteArray_inj.mp (ByteArray.ext (Array.toList_inj.mp ?_))
  unfold code at same
  generalize name.toByteArray.data.toList = bytes at same
  generalize other.toByteArray.data.toList = others at same
  induction bytes generalizing others with
  | nil =>
    cases others with
    | nil => rfl
    | cons byte others => simp at same
  | cons byte bytes ih =>
    cases others with
    | nil => simp at same
    | cons other others =>
      simp only [List.foldr_cons] at same
      have first := byte.toNat_lt
      have second := other.toNat_lt
      have bytes : byte = other := UInt8.toNat_inj.mp (by omega)
      rw [bytes, ih others (by omega)]

theorem mem_map_code_iff {name : String} {names : List String} :
    code name ∈ names.map code ↔ name ∈ names := by
  rw [List.mem_map]
  exact ⟨fun ⟨other, member, same⟩ => code_inj same ▸ member, fun member => ⟨name, member, rfl⟩⟩

namespace Java.Reduction

open Piece NodeSort

/-! ### The shapes of collections -/

/-- The collections by the shape of what their rules are made into. -/
def shapes : List (Shape × List String) := [
  (.of (.unit :: .package :: .importing :: declarations), ["CompilationUnit"]),
  (.of [.package], ["PackageDeclaration"]),
  (.of [.importing], ["ImportDeclaration"]),
  (.of declarations, ["TypeDeclaration"]),
  (.of [.name], ["DottedName"]),
  (.of NodeSort.types, ["Type", "ReferenceType", "ArrayType", "AdditionalBound"]),
  (.of [.primitiveType], ["PrimitiveType"]),
  (.of [.classType], ["ClassType", "SimpleClassType"]),
  (.of [.dims], ["Dims"]),
  (.of [.typeArguments], ["TypeArguments"]),
  (.of typeArguments, ["TypeArgument", "Wildcard"]),
  (.of [.typeParameters], ["TypeParameters"]),
  (.of [.typeParameter], ["TypeParameter"]),
  (.of [.annotationUse], ["Annotation"]),
  (.of [.elementPair], ["ElementValuePair"]),
  (.of elementValues, ["ElementValue", "ElementValueArrayInitializer"]),
  (.of [.typeDeclaration],
    ["ClassDeclaration", "NormalClassDeclaration", "EnumDeclaration", "InterfaceDeclaration"]),
  (.of modifiers, ["Modifier", "VariableModifier"]),
  (.of [.superclass], ["Superclass"]),
  (.of [.interfaces], ["Superinterfaces", "ExtendsInterfaces"]),
  (.of [.classBody], ["ClassBody", "EnumBodyDeclarations"]),
  (.of members,
    ["ClassBodyDeclaration", "ClassMemberDeclaration", "StaticInitializer",
      "ConstructorDeclaration", "FieldDeclaration", "MethodDeclaration"]),
  (.oneOrList declarators, ["VariableDeclaratorList"]),
  (.of declarators, ["VariableDeclarator"]),
  (.of [.bareDeclarator], ["VariableDeclaratorId"]),
  (.of results, ["Result"]),
  (.oneOrList [.parameter], ["FormalParameterList"]),
  (.of [.parameter], ["FormalParameter"]),
  (.of [.exceptions], ["Throws"]),
  (.of [.block, .empty], ["MethodBody"]),
  (.of [.block], ["InstanceInitializer", "Block", "ConstructorBody"]),
  (.of [.stmt], ["ExplicitConstructorInvocation"]),
  (.of [.enumBody], ["EnumBody"]),
  (.of [.enumConstant], ["EnumConstant"]),
  (.of [.varDeclaration], ["LocalVariableDeclaration"]),
  (.of statements,
    ["BlockStatement", "LocalVariableDeclarationStatement", "Statement", "StatementNoShortIf",
      "StatementWithoutTrailingSubstatement", "EmptyStatement", "LabeledStatement",
      "LabeledStatementNoShortIf", "ExpressionStatement", "IfThenStatement", "IfThenElseStatement",
      "IfThenElseStatementNoShortIf", "AssertStatement", "SwitchStatement", "WhileStatement",
      "WhileStatementNoShortIf", "DoStatement", "ForStatement", "ForStatementNoShortIf",
      "BasicForStatement", "BasicForStatementNoShortIf", "EnhancedForStatement",
      "EnhancedForStatementNoShortIf", "BreakStatement", "ContinueStatement", "ReturnStatement",
      "ThrowStatement", "SynchronizedStatement", "TryStatement"]),
  (.of [.switchBlock], ["SwitchBlock"]),
  (.of [.switchGroup], ["SwitchBlockStatementGroup"]),
  (.of [.switchLabel], ["SwitchLabel"]),
  (loopStart, ["ForInit"]),
  (.oneOrList expressions, ["StatementExpressionList", "DimExprs"]),
  (.of [.catchClause], ["CatchClause"]),
  (.oneOrList NodeSort.types, ["CatchType"]),
  (.of [.finallyBlock], ["Finally"]),
  (.of [.resources], ["ResourceSpecification"]),
  (.of [.resource], ["Resource"]),
  (.of [.creation], ["UnqualifiedClassInstanceCreationExpression"]),
  (.of [.arrayInitializer], ["ArrayInitializer"]),
  (.of [.diamond], ["Diamond"]),
  (.of [.arguments], ["Arguments"]),
  (.of [.lambdaParameters], ["LambdaParameters"]),
  (.of (.block :: expressions), ["LambdaBody"]),
  (.of (assignmentOperators.map .token), ["AssignmentOperator"]),
  (.of expressions,
    ["VariableInitializer", "StatementExpression", "Primary", "PrimaryNoNewArray", "Literal",
      "ClassLiteral", "ClassInstanceCreationExpression", "FieldAccess", "ArrayAccess",
      "MethodInvocation", "MethodReference", "ArrayCreationExpression", "DimExpr", "Expression",
      "LambdaExpression", "AssignmentExpression", "Assignment", "LeftHandSide",
      "ConditionalExpression", "ConditionalOrExpression", "ConditionalAndExpression",
      "InclusiveOrExpression", "ExclusiveOrExpression", "AndExpression", "EqualityExpression",
      "RelationalExpression", "ShiftExpression", "AdditiveExpression",
      "MultiplicativeExpression", "UnaryExpression", "PreIncrementExpression",
      "PreDecrementExpression", "UnaryExpressionNotPlusMinus", "PostfixExpression",
      "PostIncrementExpression", "PostDecrementExpression", "CastExpression"])]

/-- The shapes by the numbers of the names. -/
def shapesByCode : List (Nat × Shape) :=
  shapes.flatMap fun (shape, names) => names.map fun name => (code name, shape)

/-- The shape of what the rules of the collection are made into. -/
def shapeOf (name : String) : Option Shape := shapesByCode.lookup (code name)

def signaturesByCode : List (Nat × Signature) :=
  signatures.map fun entry => (code entry.1, entry.2)

/-- The signature of the reduction for the collection, if it needs one. -/
def signatureOf (name : String) : Option Signature := signaturesByCode.lookup (code name)

/-! ### What is given to a reduction -/

/-- The shape for a name without a collection, which nothing has. -/
def nothing : Shape := .of []

mutual

/-- The piece of a row that stands for an element. -/
def pieceOf : Element → Piece
  | .token kind => .one [.ofKind kind]
  | .rule target => .part ((shapeOf target).getD nothing)
  | .optional body => .maybe (rowOf body)
  | .repeated body => .maybe [.part (.listOf (itemSortsOf (rowOf body)))]

def rowOf : List Element → List Piece
  | [] => []
  | element :: elements => pieceOf element :: rowOf elements

end

/-! ### Checks -/

/-- Whether there may be nothing for the element. -/
def isOptional : Element → Bool
  | .token _ | .rule _ => false
  | .optional _ | .repeated _ => true

mutual

/-- Whether all that the element comes to as a single name is of the shape. -/
def passes (shape : Shape) : Element → Bool
  | .token _ => true
  | .rule target => ((shapeOf target).getD nothing).within shape
  | .optional body => rowPasses shape body
  | .repeated body => (Shape.listOf (itemSortsOf (rowOf body))).within shape

def rowPasses (shape : Shape) : List Element → Bool
  | [] => true
  | element :: elements =>
    (!elements.all isOptional || passes shape element) &&
      (!isOptional element || rowPasses shape elements)

end

/-- Whether the body of a repetition adds items to the list: it consists of tokens and names, none
of them made into lists, and one at least made into an item. -/
def plainBody (body : List Element) : Bool :=
  (body.all fun
    | .token _ => true
    | .rule target => (shapeOf target).any (·.items.isEmpty)
    | _ => false) &&
  body.any fun element =>
    match pieceOf element with
    | .part shape => shape.sorts.all (!·.isToken)
    | .maybe _ => false

mutual

/-- Whether all repetitions have such bodies, at any depth. -/
def plainRepetitions : Element → Bool
  | .token _ | .rule _ => true
  | .optional body => rowPlainRepetitions body
  | .repeated body => plainBody body

def rowPlainRepetitions : List Element → Bool
  | [] => true
  | element :: elements => plainRepetitions element && rowPlainRepetitions elements

end

/-- Whether the elements are a single name. -/
def isName : List Element → Bool
  | [.rule _] => true
  | _ => false

/-- Whether what the alternative is made into is of the shape of its collection. -/
def covered (alternative : Alternative) : Bool :=
  match shapeOf alternative.name with
  | none => false
  | some shape =>
    (Element.bodyNames alternative.elements).all (fun name => (shapeOf name).isSome) &&
      rowPasses shape alternative.elements && rowPlainRepetitions alternative.elements &&
      (isName alternative.elements ||
        (signatureOf alternative.name).any fun signature =>
          signature.result.within shape &&
            signature.rows.any fun row => rowCovers row (rowOf alternative.elements))

set_option maxRecDepth 100000 in
/-- Every alternative of the grammar is covered. -/
theorem covered_rules : Grammar.rules.all covered := by
  decide +kernel

/-! ### The names of repetitions -/

theorem code_of_isRepetition {name : String} (repetition : TreeBuilder.isRepetition name) :
    code name % 256 = 91 := by
  obtain ⟨rest, same⟩ := List.isPrefixOf_iff_prefix.mp repetition
  have whole : name = repetitionPrefix ++ String.ofList rest := by
    rw [← String.ofList_toList (s := name), ← same, String.ofList_append, String.ofList_toList]
  have bytes : repetitionPrefix.toByteArray.data.toList = [90, 79, 77, 95] := by decide +kernel
  rw [code, whole, String.toByteArray_append, ByteArray.data_append, Array.toList_append, bytes]
  simp only [List.cons_append, List.foldr_cons]
  have first : (90 : UInt8).toNat = 90 := rfl
  omega

/-- No collection with a shape has the name of a repetition. -/
theorem shapeOf_of_isRepetition {name : String} (repetition : TreeBuilder.isRepetition name) :
    shapeOf name = none := by
  have apart : shapesByCode.all fun entry => entry.1 % 256 ≠ 91 := by decide +kernel
  cases found : shapeOf name with
  | none => rfl
  | some shape =>
    obtain ⟨ahead, behind, same, -⟩ := List.lookup_eq_some_iff.mp found
    have other := List.all_eq_true.mp apart (code name, shape) (by simp [same])
    simp [code_of_isRepetition repetition] at other

theorem shapeOf_goalName : shapeOf Grammar.goalName = none := by
  decide +kernel

/-! ### The reductions of collections -/

private theorem lookup_code {α : Type} (entries : List (String × α)) (name : String) :
    (entries.map fun entry => (code entry.1, entry.2)).lookup (code name) =
      entries.lookup name := by
  induction entries with
  | nil => rfl
  | cons entry entries ih =>
    have same : (code name == code entry.1) = (name == entry.1) := by
      by_cases same : name = entry.1
      · simp [same]
      · rw [beq_eq_false_iff_ne.mpr same, beq_eq_false_iff_ne.mpr fun codes => same (code_inj codes)]
    rw [List.map_cons, List.lookup_cons, List.lookup_cons, same, ih]

/-- The reduction of a signature is the one for its collection. -/
theorem constructor?_of_signatureOf {grammar : JavaFrontend.Grammar} {name : String}
    {signature : Signature} (found : signatureOf name = some signature)
    (other : name ≠ Grammar.goalName) : constructor? grammar name = some signature.reduction := by
  unfold signatureOf signaturesByCode at found
  rw [lookup_code] at found
  rw [constructor?, if_neg other, table_eq_signatures]
  generalize signatures = entries at found
  induction entries with
  | nil => cases found
  | cons entry entries ih =>
    rw [List.lookup_cons] at found
    rw [List.map_cons, List.lookup_cons]
    cases same : name == entry.1 with
    | true =>
      rw [same] at found
      cases found
      rfl
    | false =>
      rw [same] at found
      exact ih found

end Java.Reduction

end JavaFrontend
