import JavaFrontend.Java.Grammar
import JavaFrontend.Java.Reduction.Expressions
import JavaFrontend.Java.Reduction.Types
import JavaFrontend.Reduction.Builder

/-!
The reductions of the Java grammar by collection.
-/

namespace JavaFrontend.Java.Reduction

/-- The reduction for each collection that needs one. -/
def table : List (String × OperandM Node) := [
  -- compilation units
  ("CompilationUnit", compilationUnit),
  ("PackageDeclaration", packageDeclaration),
  ("ImportDeclaration", importDeclaration),
  ("TypeDeclaration", empty),
  -- names and types
  ("DottedName", dottedName),
  ("PrimitiveType", primitiveType),
  ("ClassType", classType),
  ("SimpleClassType", simpleClassType),
  ("ArrayType", arrayType),
  ("Dims", arrayDims),
  ("TypeArguments", typeArgumentList),
  ("Wildcard", wildcard),
  ("TypeParameters", typeParameterList),
  ("TypeParameter", typeParameter),
  ("AdditionalBound", additionalBound),
  -- annotations
  ("Annotation", annotationUse),
  ("ElementValuePair", elementPair),
  ("ElementValueArrayInitializer", elementArray),
  -- classes and interfaces
  ("NormalClassDeclaration", classDeclaration),
  ("Modifier", modifier),
  ("VariableModifier", modifier),
  ("Superclass", superclass),
  ("Superinterfaces", interfaces),
  ("ExtendsInterfaces", interfaces),
  ("ClassBody", classBody),
  ("ClassMemberDeclaration", empty),
  ("StaticInitializer", staticInitializer),
  ("FieldDeclaration", fieldDeclaration),
  ("VariableDeclaratorList", list),
  ("VariableDeclarator", variableDeclarator),
  ("VariableDeclaratorId", variableDeclaratorId),
  ("MethodDeclaration", methodDeclaration),
  ("Result", first),
  ("FormalParameterList", list),
  ("FormalParameter", formalParameter),
  ("Throws", exceptions),
  ("MethodBody", empty),
  ("ConstructorDeclaration", constructorDeclaration),
  ("ConstructorBody", braces),
  ("ExplicitConstructorInvocation", constructorCall),
  ("EnumDeclaration", enumDeclaration),
  ("EnumBody", enumBody),
  ("EnumConstant", enumConstant),
  ("EnumBodyDeclarations", enumBodyDeclarations),
  ("InterfaceDeclaration", interfaceDeclaration),
  ("ArrayInitializer", arrayInitializer),
  -- blocks and statements
  ("Block", braces),
  ("LocalVariableDeclarationStatement", variablesStatement),
  ("LocalVariableDeclaration", localVariables),
  ("EmptyStatement", emptyStatement),
  ("LabeledStatement", labeledStatement),
  ("LabeledStatementNoShortIf", labeledStatement),
  ("ExpressionStatement", exprStatement),
  ("IfThenStatement", ifStatement),
  ("IfThenElseStatement", ifStatement),
  ("IfThenElseStatementNoShortIf", ifStatement),
  ("AssertStatement", assertStatement),
  ("SwitchStatement", switchStatement),
  ("SwitchBlock", switchBlock),
  ("SwitchBlockStatementGroup", switchGroup),
  ("SwitchLabel", switchLabel),
  ("WhileStatement", whileStatement),
  ("WhileStatementNoShortIf", whileStatement),
  ("DoStatement", doStatement),
  ("BasicForStatement", forStatement),
  ("BasicForStatementNoShortIf", forStatement),
  ("StatementExpressionList", list),
  ("EnhancedForStatement", forEachStatement),
  ("EnhancedForStatementNoShortIf", forEachStatement),
  ("BreakStatement", jumpStatement),
  ("ContinueStatement", jumpStatement),
  ("ReturnStatement", returnStatement),
  ("ThrowStatement", throwStatement),
  ("SynchronizedStatement", synchronizedStatement),
  ("TryStatement", tryStatement),
  ("CatchClause", catchClause),
  ("CatchType", list),
  ("Finally", finallyBlock),
  ("ResourceSpecification", resources),
  ("Resource", resource),
  -- expressions
  ("PrimaryNoNewArray", primary),
  ("Literal", first),
  ("ClassLiteral", classLiteral),
  ("ClassInstanceCreationExpression", qualifiedCreation),
  ("UnqualifiedClassInstanceCreationExpression", creation),
  ("Diamond", diamond),
  ("Arguments", argumentList),
  ("FieldAccess", fieldAccess),
  ("ArrayAccess", arrayAccess),
  ("MethodInvocation", methodInvocation),
  ("MethodReference", methodReference),
  ("ArrayCreationExpression", arrayCreation),
  ("DimExprs", list),
  ("DimExpr", dimensionLength),
  ("LambdaExpression", lambda),
  ("LambdaParameters", lambdaParameters),
  ("Assignment", assignment),
  ("AssignmentOperator", first),
  ("ConditionalExpression", conditional),
  ("ConditionalOrExpression", binary),
  ("ConditionalAndExpression", binary),
  ("InclusiveOrExpression", binary),
  ("ExclusiveOrExpression", binary),
  ("AndExpression", binary),
  ("EqualityExpression", binary),
  ("RelationalExpression", binary),
  ("ShiftExpression", binary),
  ("AdditiveExpression", binary),
  ("MultiplicativeExpression", binary),
  ("UnaryExpression", leading),
  ("PreIncrementExpression", leading),
  ("PreDecrementExpression", leading),
  ("UnaryExpressionNotPlusMinus", leading),
  ("PostIncrementExpression", trailing),
  ("PostDecrementExpression", trailing),
  ("CastExpression", cast)]

/-- The reduction for the rules of a collection in the grammar. The goal of a grammar that has
compilation units is one; any other goal is what stands before the end of the input. -/
def constructor? (grammar : JavaFrontend.Grammar) (name : String) : Option (OperandM Node) :=
  if name = Grammar.goalName then
    some (if (grammar.collection? "CompilationUnit").isSome then unitGoal else first)
  else table.lookup name

/-- The way of building trees for the Java grammar, or for another grammar with collections of the
same names. -/
def builder (grammar : JavaFrontend.Grammar) : TreeBuilder :=
  .ofGrammar grammar (constructor? grammar) false

end JavaFrontend.Java.Reduction
