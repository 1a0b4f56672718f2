import JavaFrontend.Proofs.Trees.Parses
import JavaFrontend.Proofs.Place.Beginnings

/-!
The names of expressions and of all that may be at the beginning of one, with what their rules and
reductions have in common: each rule begins with a token or with such a name, and each reduction
leaves the place of its first operand.
-/

namespace JavaFrontend.Java

open OperandM Element JavaFrontend.Java.Reduction

variable {elements : List Element} {nodes more : List Node} {node head : Node} {name : String}
  {Among : Position → Prop}

/-! ### Rules that begin with a token -/

/-- The names whose reductions leave the place of the first operand, or what they leave out. -/
def headedNames : List String := [
  "DottedName", "SimpleClassType", "ArrayType", "PrimaryNoNewArray", "Literal", "ClassLiteral",
  "ClassInstanceCreationExpression", "UnqualifiedClassInstanceCreationExpression", "FieldAccess",
  "ArrayAccess", "MethodInvocation", "MethodReference", "ArrayCreationExpression",
  "LambdaExpression", "Assignment", "ConditionalExpression", "ConditionalOrExpression",
  "ConditionalAndExpression", "InclusiveOrExpression", "ExclusiveOrExpression", "AndExpression",
  "EqualityExpression", "RelationalExpression", "ShiftExpression", "AdditiveExpression",
  "MultiplicativeExpression", "UnaryExpression", "PreIncrementExpression",
  "PreDecrementExpression", "UnaryExpressionNotPlusMinus", "PostIncrementExpression",
  "PostDecrementExpression", "CastExpression"]

/-- The names that only pass on what other names stand for. -/
def passingNames : List String := [
  "Expression", "AssignmentExpression", "LeftHandSide", "PostfixExpression", "Primary"]

/-- These and the names whose reductions do so of operands that the grammar gives them. -/
def leadingNames : List String := "PrimitiveType" :: "ClassType" :: headedNames

/-- The names of expressions, and of all that may be at the beginning of one. -/
def corners : List String := leadingNames ++ "LambdaParameters" :: "Annotation" :: passingNames

/-- The row begins with a token, or with one of the names. -/
def isCorner : List Element → Bool
  | .token kind :: _ => kind != .endOfInput
  | .rule name :: _ => corners.map code |>.contains (code name)
  | .repeated [.rule name] :: rest => (corners.map code |>.contains (code name)) && isCorner rest
  | _ => false

/-- Whether the row is a lone token. -/
def isLone : List Element → Bool
  | [.token _] => true
  | _ => false

/-- Whether the row begins with the name. -/
def beginsWith (name : String) : List Element → Bool
  | .rule other :: _ => code other == code name
  | _ => false

/-- Whether the row begins with a token of the kind. -/
def beginsWithToken (kind : Kind) : List Element → Bool
  | .token other :: _ => other == kind
  | _ => false

/-- Whether the element is a name of the source. -/
def isName : Element → Bool
  | .token kind => kind == .identifier
  | _ => false

/-- What the rows of the names begin with, in general and those that have a form of their own: a
primitive type is a lone word, or there are annotations in front of another, and the parameters of a
lambda are a lone name, or they are in parentheses. -/
theorem row_forms : ∀ alternative ∈ Grammar.rules,
    (code alternative.name ∈ corners.map code → isCorner alternative.elements) ∧
    (code alternative.name = code "SimpleClassType" → alternative.elements.any isName) ∧
    (code alternative.name = code "ClassType" →
      beginsWith "SimpleClassType" alternative.elements) ∧
    (code alternative.name = code "PrimitiveType" → isLone alternative.elements ∨
      beginsWith "Annotation" alternative.elements ∧
        ∀ name ∈ bodyNames alternative.elements, isOf [.annotationUse, .primitiveType] name) ∧
    (code alternative.name = code "LambdaParameters" →
      beginsWithToken .leftParen alternative.elements ∨
        isLone alternative.elements ∧ beginsWithToken .identifier alternative.elements) := by
  decide +kernel

theorem corner_rows {alternative : Alternative} (member : alternative ∈ Grammar.rules) :
    code alternative.name ∈ corners.map code → isCorner alternative.elements :=
  (row_forms alternative member).1

theorem simpleClassType_rows {alternative : Alternative} (member : alternative ∈ Grammar.rules) :
    code alternative.name = code "SimpleClassType" → alternative.elements.any isName :=
  (row_forms alternative member).2.1

theorem classType_rows {alternative : Alternative} (member : alternative ∈ Grammar.rules) :
    code alternative.name = code "ClassType" → beginsWith "SimpleClassType" alternative.elements :=
  (row_forms alternative member).2.2.1

theorem primitiveType_rows {alternative : Alternative} (member : alternative ∈ Grammar.rules) :
    code alternative.name = code "PrimitiveType" → isLone alternative.elements ∨
      beginsWith "Annotation" alternative.elements ∧
        ∀ name ∈ bodyNames alternative.elements, isOf [.annotationUse, .primitiveType] name :=
  (row_forms alternative member).2.2.2.1

theorem lambda_rows {alternative : Alternative} (member : alternative ∈ Grammar.rules) :
    code alternative.name = code "LambdaParameters" →
      beginsWithToken .leftParen alternative.elements ∨
        isLone alternative.elements ∧ beginsWithToken .identifier alternative.elements :=
  (row_forms alternative member).2.2.2.2

/-! ### The names of reductions -/

/-- The names that make parts with places otherwise. -/
def placedNames : List String := [
  "Wildcard", "AdditionalBound", "ElementValueArrayInitializer", "VariableDeclaratorList",
  "VariableDeclarator", "VariableDeclaratorId", "Result", "FormalParameterList", "FormalParameter",
  "ArrayInitializer", "StatementExpressionList", "CatchType", "DimExprs", "DimExpr",
  "LambdaParameters", "AssignmentOperator"]

/-- Whether nodes of the sort are anywhere. -/
def isPlaced : NodeSort → Bool
  | .token _ | .identifier | .literal | .name | .primitiveType | .classType | .arrayType | .expr
  | .creation | .arrayInitializer | .lambdaParameters | .parameter | .declarator
  | .bareDeclarator => true
  | _ => false

/-- There are no reductions of the names that only pass something on, the reductions of no other names
make parts that are somewhere, and no corner is a list. -/
theorem reduction_forms : (∀ name ∈ passingNames, code name ∉ table.map (code ·.1)) ∧
    (∀ name ∈ table.map (·.1), code name ∈ (leadingNames ++ placedNames).map code ∨
      (shapeOf name).any fun shape => (shape.sorts ++ shape.items).all (!isPlaced ·)) ∧
    ∀ name ∈ corners, (shapeOf name).any fun shape => shape.items.isEmpty := by
  decide +kernel

theorem mem_corners_of_contains (known : (corners.map code).contains (code name)) :
    name ∈ corners := mem_map_code_iff.mp (List.contains_iff_mem.mp known)

/-! ### Reductions by name -/

/-- What the reductions of the names leave of the place of the first operand. -/
theorem headed_of_run (all : ∀ node ∈ more, node.AllPlaced Among) :
    ∀ name ∈ headedNames, ∀ reduction, table.lookup name = some reduction →
      (reduction.run ⟨name, head :: more⟩).1 = .ok node → Headed Among head node := by
  simp only [headedNames, List.forall_mem_cons]
  refine ⟨?_, ?_, ?_, ?_, ?_, ?_, ?_, ?_, ?_, ?_, ?_, ?_, ?_, ?_, ?_, ?_, ?_, ?_, ?_, ?_, ?_, ?_,
    ?_, ?_, ?_, ?_, ?_, ?_, ?_, ?_, ?_, ?_, ?_, List.forall_mem_nil _⟩
  all_goals
    rintro _ ⟨⟩ ran
  · exact headed_dottedName.of_run all ran
  · exact headed_simpleClassType.of_run all ran
  · exact headed_arrayType.of_run all ran
  · exact headed_primary.of_run all ran
  · exact headed_first.of_run all ran
  · exact headed_classLiteral.of_run all ran
  · exact headed_qualifiedCreation.of_run all ran
  · exact headed_creation.of_run all ran
  · exact headed_fieldAccess.of_run all ran
  · exact headed_arrayAccess.of_run all ran
  · exact headed_methodInvocation.of_run all ran
  · exact headed_methodReference.of_run all ran
  · exact headed_arrayCreation.of_run all ran
  · exact headed_lambda.of_run all ran
  · exact headed_assignment.of_run all ran
  · exact headed_conditional.of_run all ran
  iterate 10 exact headed_binary.of_run all ran
  iterate 4 exact headed_leading.of_run all ran
  iterate 2 exact headed_trailing.of_run all ran
  exact headed_cast.of_run all ran

theorem allPlaced_of_run (bare : Among default) (all : ∀ node ∈ nodes, node.AllPlaced Among) :
    ∀ name ∈ placedNames, ∀ reduction, table.lookup name = some reduction →
      (reduction.run ⟨name, nodes⟩).1 = .ok node → node.AllPlaced Among := by
  simp only [placedNames, List.forall_mem_cons]
  refine ⟨?_, ?_, ?_, ?_, ?_, ?_, ?_, ?_, ?_, ?_, ?_, ?_, ?_, ?_, ?_, ?_, List.forall_mem_nil _⟩
  all_goals
    rintro _ ⟨⟩ ran
  · exact placed_wildcard.of_run all ran
  · exact placed_additionalBound.of_run all ran
  · exact placed_elementArray.of_run all ran
  · exact placed_list.of_run all ran
  · exact placed_variableDeclarator.of_run all ran
  · exact placed_variableDeclaratorId.of_run all ran
  · exact placed_first.of_run all ran
  · exact placed_list.of_run all ran
  · exact placed_formalParameter.of_run all ran
  · exact (placed_arrayInitializer bare).of_run all ran
  · exact placed_list.of_run all ran
  · exact placed_list.of_run all ran
  · exact placed_list.of_run all ran
  · exact placed_dimensionLength.of_run all ran
  · exact placed_lambdaParameters.of_run all ran
  · exact placed_first.of_run all ran

theorem place?_of_holds {sort : NodeSort} (holds : sort.Holds node) (bare : isPlaced sort = false) :
    node.place? = none := by
  cases holds <;> first | rfl | cases bare

theorem allPlaced_of_bare {shape : Shape} (holds : shape.Holds node)
    (bare : (shape.sorts ++ shape.items).all (!isPlaced ·)) : node.AllPlaced Among := by
  intro item member place isPlace
  obtain ⟨sort, among, holds⟩ := holds.items item member
  have none := place?_of_holds holds (by simpa using List.all_eq_true.mp bare sort among)
  rw [none] at isPlace
  cases isPlace

/-- A part that is at one of the places is so with all its items if it is no list. -/
theorem allPlaced_of_typed (corner : name ∈ corners) (typed : Typed name node)
    (placed : node.Placed Among) : node.AllPlaced Among := by
  obtain ⟨shape, known, flat⟩ := (Option.any_eq_true _ _).mp (reduction_forms.2.2 name corner)
  obtain ⟨sort, -, holds⟩ := sort_of_flat (List.isEmpty_iff.mp flat) (typed shape known)
  exact allPlaced_of_placed placed holds.items

/-- A class type of one segment is what is made of each of its parts. -/
theorem segment_of_run (ran : (simpleClassType.run ⟨name, nodes⟩).1 = .ok node) :
    ∃ segment, node = .type (.classType (.cons segment .nil)) := by
  have makes : Yields (fun _ => True)
      (fun node => ∃ segment, node = .type (.classType (.cons segment .nil))) simpleClassType :=
    .bind (.any _) fun _ _ => .bind (.any _) fun _ _ => .bind (.any _) fun _ _ => .pure ⟨_, rfl⟩
  exact makes.of_run (fun _ _ => trivial) ran

end JavaFrontend.Java
