import JavaFrontend.Java.Reduction
import JavaFrontend.Proofs.Java.Expressions

/-!
The signatures of all reductions of the Java grammar: the rows of operands that each of them is
given, and the shape of what it makes of them.
-/

namespace JavaFrontend.Java.Reduction

open OperandM Piece NodeSort

/-- A reduction, the rows of operands that it is given, and the shape of what it makes of them. -/
structure Signature where
  reduction : OperandM Node
  rows : List (List Piece)
  result : Shape
  makes : ∀ row ∈ rows, Makes row [] reduction result

namespace Signature

variable {reduction : OperandM Node} {row : List Piece} {result : Shape}

/-- The signature of a reduction that is given one row. -/
def of (makes : Makes row [] reduction result) : Signature where
  reduction
  rows := [row]
  result
  makes _ member := List.mem_singleton.mp member ▸ makes

/-- The signature with one more row. -/
def or (signature : Signature) (makes : Makes row [] signature.reduction signature.result) :
    Signature :=
  { signature with
    rows := row :: signature.rows
    makes := List.forall_mem_cons.mpr ⟨makes, signature.makes⟩ }

end Signature

/-! ### Kinds of tokens -/

def modifierWords : List Kind :=
  [.publicWord, .protectedWord, .privateWord, .abstractWord, .staticWord, .finalWord,
    .strictfpWord, .transientWord, .volatileWord, .synchronizedWord, .nativeWord, .defaultWord]

def primitiveWords : List Kind :=
  [.byteWord, .shortWord, .charWord, .intWord, .longWord, .floatWord, .doubleWord, .booleanWord]

def assignmentOperators : List Kind :=
  [.assign, .starAssign, .slashAssign, .percentAssign, .plusAssign, .minusAssign,
    .leftShiftAssign, .rightShiftAssign, .unsignedShiftAssign, .ampersandAssign, .caretAssign,
    .barAssign]

def binaryOperators : List Kind :=
  [.orOr, .andAnd, .bar, .caret, .ampersand, .equalEqual, .notEqual, .less, .greater, .lessEqual,
    .greaterEqual, .leftShift, .rightShift, .unsignedShift, .plus, .minus, .star, .slash, .percent]

def leadingOperators : List Kind := [.plus, .minus, .increment, .decrement, .tilde, .bang]

/-! ### Signatures that several rules share -/

namespace Signature

/-- Of rules for lists. -/
def list (sorts : List NodeSort) (solid : sorts.all (!·.isToken)) : Signature :=
  .of (makes_list solid)

/-- Of rules that keep the one part that they have. -/
def first (shape : Shape) : Signature := .of (makes_first rfl : Makes [.part shape] _ _ _)

/-- Of rules for a lone semicolon. -/
def semicolon : Signature := .of (makes_empty : Makes [tokens [.semicolon]] _ _ _)

def modifier : Signature := .of (makes_modifier : Makes [tokens modifierWords] _ _ _)

def interfaces : Signature :=
  .of (makes_interfaces : Makes [tokens [.implementsWord, .extendsWord], _, _] _ _ _)

def braces : Signature :=
  .of (makes_braces rfl : Makes [_, opt [.stmt], many statements, token .rightBrace] _ _ _)

def jump : Signature :=
  .of (makes_jumpStatement : Makes [tokens [.breakWord, .continueWord], _, _] _ _ _)

def binary : Signature :=
  .or (.of makes_instanceOf) (makes_binary (by decide) : Makes [_, tokens binaryOperators, _] _ _ _)

def leading : Signature := .of (makes_leading : Makes [tokens leadingOperators, _] _ _ _)

def trailing : Signature :=
  .of (makes_trailing : Makes [_, tokens [.increment, .decrement]] _ _ _)

end Signature

/-- The signatures of the reductions by collection. -/
def signatures : List (String × Signature) := [
  -- compilation units
  ("CompilationUnit",
    .or (.or (.of makes_unitWithPackage) makes_unitWithImports) makes_unitOfTypes),
  ("PackageDeclaration", .of makes_packageDeclaration),
  ("ImportDeclaration",
    .or (.of (makes_importDeclaration rfl :
        Makes [_, _, .maybe [token .dot], .maybe [token .star], token .semicolon] _ _ _))
      (makes_staticImport rfl :
        Makes [_, _, _, .maybe [token .dot], .maybe [token .star], token .semicolon] _ _ _)),
  ("TypeDeclaration", .semicolon),
  -- names and types
  ("DottedName", .of makes_dottedName),
  ("PrimitiveType",
    .or (.of makes_annotatedType)
      (makes_primitiveType : Makes [tokens primitiveWords] _ _ _)),
  ("ClassType", .of makes_classType),
  ("SimpleClassType", .of makes_simpleClassType),
  ("ArrayType", .of makes_arrayType),
  ("Dims", .of makes_arrayDims),
  ("TypeArguments", .of makes_typeArgumentList),
  ("Wildcard", .or (.or (.of makes_anyArgument) makes_upperBounded) makes_lowerBounded),
  ("TypeParameters", .of makes_typeParameterList),
  ("TypeParameter", .of makes_typeParameter),
  ("AdditionalBound", .of makes_additionalBound),
  -- annotations
  ("Annotation",
    .or (.or (.of makes_annotationMarker) makes_annotationPairs) makes_annotationSingle),
  ("ElementValuePair", .of makes_elementPair),
  ("ElementValueArrayInitializer", .of makes_elementArray),
  -- classes and interfaces
  ("NormalClassDeclaration", .of makes_classDeclaration),
  ("Modifier", .modifier),
  ("VariableModifier", .modifier),
  ("Superclass", .of makes_superclass),
  ("Superinterfaces", .interfaces),
  ("ExtendsInterfaces", .interfaces),
  ("ClassBody", .of makes_classBody),
  ("ClassMemberDeclaration", .semicolon),
  ("StaticInitializer", .of makes_staticInitializer),
  ("FieldDeclaration", .of makes_fieldDeclaration),
  ("VariableDeclaratorList", .list declarators rfl),
  ("VariableDeclarator", .of makes_variableDeclarator),
  ("VariableDeclaratorId", .of makes_variableDeclaratorId),
  ("MethodDeclaration", .of makes_methodDeclaration),
  ("Result", .first (.of results)),
  ("FormalParameterList", .list [.parameter] rfl),
  ("FormalParameter", .or (.of makes_formalParameter) makes_variadicParameter),
  ("Throws", .of makes_exceptions),
  ("MethodBody", .semicolon),
  ("ConstructorDeclaration", .of makes_constructorDeclaration),
  ("ConstructorBody", .braces),
  ("ExplicitConstructorInvocation", .or (.of makes_constructorCall) makes_outerConstructorCall),
  ("EnumDeclaration", .of makes_enumDeclaration),
  ("EnumBody", .of makes_enumBody),
  ("EnumConstant", .of makes_enumConstant),
  ("EnumBodyDeclarations", .of makes_enumBodyDeclarations),
  ("InterfaceDeclaration", .of makes_interfaceDeclaration),
  ("ArrayInitializer", .of makes_arrayInitializer),
  -- blocks and statements
  ("Block", .braces),
  ("LocalVariableDeclarationStatement", .of makes_variablesStatement),
  ("LocalVariableDeclaration", .of makes_localVariables),
  ("EmptyStatement", .of (makes_emptyStatement : Makes [tokens [.semicolon]] _ _ _)),
  ("LabeledStatement", .of makes_labeledStatement),
  ("LabeledStatementNoShortIf", .of makes_labeledStatement),
  ("ExpressionStatement", .of makes_exprStatement),
  ("IfThenStatement", .of makes_ifThen),
  ("IfThenElseStatement", .of makes_ifThenElse),
  ("IfThenElseStatementNoShortIf", .of makes_ifThenElse),
  ("AssertStatement", .or (.of makes_assertion) makes_assertionWithMessage),
  ("SwitchStatement", .of makes_switchStatement),
  ("SwitchBlock", .of makes_switchBlock),
  ("SwitchBlockStatementGroup", .of makes_switchGroup),
  ("SwitchLabel", .or (.of makes_caseLabel) makes_defaultLabel),
  ("WhileStatement", .of makes_whileStatement),
  ("WhileStatementNoShortIf", .of makes_whileStatement),
  ("DoStatement", .of makes_doStatement),
  ("BasicForStatement", .of makes_forStatement),
  ("BasicForStatementNoShortIf", .of makes_forStatement),
  ("StatementExpressionList", .list expressions rfl),
  ("EnhancedForStatement", .of makes_forEachStatement),
  ("EnhancedForStatementNoShortIf", .of makes_forEachStatement),
  ("BreakStatement", .jump),
  ("ContinueStatement", .jump),
  ("ReturnStatement", .of makes_returnStatement),
  ("ThrowStatement", .of makes_throwStatement),
  ("SynchronizedStatement", .of makes_synchronizedStatement),
  ("TryStatement",
    .or (.of (makes_tryStatement [many [.catchClause]] rfl))
      (makes_tryStatement [one [.catchClause], many [.catchClause]] rfl)),
  ("CatchClause", .of makes_catchClause),
  ("CatchType", .list NodeSort.types rfl),
  ("Finally", .of makes_finallyBlock),
  ("ResourceSpecification", .of makes_resources),
  ("Resource", .of makes_resource),
  -- expressions
  ("PrimaryNoNewArray", .or (.or (.of makes_this) makes_parenthesized) makes_qualifiedThis),
  ("Literal", .first (.of [.literal])),
  ("ClassLiteral", .of makes_classLiteral),
  ("ClassInstanceCreationExpression", .of makes_qualifiedCreation),
  ("UnqualifiedClassInstanceCreationExpression", .of makes_creation),
  ("Diamond", .of makes_diamond),
  ("Arguments", .of makes_argumentList),
  ("FieldAccess", .or (.or (.of makes_fieldAccess) makes_superField) makes_outerSuperField),
  ("ArrayAccess", .of makes_arrayAccess),
  ("MethodInvocation",
    .or (.or (.or (.of makes_namedInvocation) makes_methodInvocation) makes_superInvocation)
      makes_outerSuperInvocation),
  ("MethodReference",
    .or (.or (.or (.of makes_methodReference) makes_superReference) makes_outerSuperReference)
      makes_constructorReference),
  ("ArrayCreationExpression", .or (.of makes_newArray) makes_newArrayOf),
  ("DimExprs", .list expressions rfl),
  ("DimExpr", .of makes_dimensionLength),
  ("LambdaExpression", .of makes_lambda),
  ("LambdaParameters",
    .or (.or (.of (makes_inferredParameters rfl : Makes [one [.identifier]] _ _ _))
      (makes_inferredParameters rfl : Makes [token .leftParen, opt [.identifier],
        many [.identifier], token .rightParen] _ _ _))
      (makes_formalParameters rfl : Makes [token .leftParen, parameterList,
        token .rightParen] _ _ _)),
  ("Assignment", .of (makes_assignment : Makes [_, tokens assignmentOperators, _] _ _ _)),
  ("AssignmentOperator", .first (.of (assignmentOperators.map .token))),
  ("ConditionalExpression", .of makes_conditional),
  ("ConditionalOrExpression", .binary),
  ("ConditionalAndExpression", .binary),
  ("InclusiveOrExpression", .binary),
  ("ExclusiveOrExpression", .binary),
  ("AndExpression", .binary),
  ("EqualityExpression", .binary),
  ("RelationalExpression", .binary),
  ("ShiftExpression", .binary),
  ("AdditiveExpression", .binary),
  ("MultiplicativeExpression", .binary),
  ("UnaryExpression", .leading),
  ("PreIncrementExpression", .leading),
  ("PreDecrementExpression", .leading),
  ("UnaryExpressionNotPlusMinus", .leading),
  ("PostIncrementExpression", .trailing),
  ("PostDecrementExpression", .trailing),
  ("CastExpression", .of makes_cast)]

theorem table_eq_signatures :
    table = signatures.map fun entry => (entry.1, entry.2.reduction) :=
  rfl

end JavaFrontend.Java.Reduction
