import JavaFrontend.Java.Tree

/-!
Outlines: trees of all categories as trees of one kind, in which the parts of a tree stand in the
order in which a walk comes to them. That is the order of the source but for `do` loops, whose
condition comes first. A walk comes to no imports, to no type parameters of methods and
constructors, and to no annotations of type parameters.
-/

namespace JavaFrontend.Java

/-- A tree of any category. -/
structure Subtree where
  {category : Category}
  tree : Tree category

/-- A tree and the outlines of the parts of it that a walk comes to. -/
inductive Outline where
  | node (root : Subtree) (parts : List Outline)

namespace Outline

def root : Outline → Subtree
  | .node root _ => root

def parts : Outline → List Outline
  | .node _ parts => parts

end Outline

/-- The outline of a tree with the parts, as the only part of something. -/
def Tree.alone {category : Category} (tree : Tree category) (parts : List Outline) :
    List Outline :=
  [.node ⟨tree⟩ parts]

mutual

/-- The outlines of the parts of a tree. -/
def Tree.parts {category : Category} : Tree category → List Outline
  -- types and annotations
  | .primitiveType annotations _ _ => annotations.outlines
  | .classType segments => segments.outlines
  | .arrayType element _ => element.alone element.parts
  | .segment annotations _ arguments => annotations.outlines ++ arguments.outlines
  | .exactArgument type => type.alone type.parts
  | .upperBounded bound | .lowerBounded bound => bound.alone bound.parts
  | .typeParameter _ _ bounds => bounds.outlines
  | .annotationSingle _ value _ => value.alone value.parts
  | .annotationPairs _ pairs _ => pairs.outlines
  | .elementExpr value => value.alone value.parts
  | .elementArray values => values.outlines
  | .annotationElement value => value.alone value.parts
  | .elementPair _ value => value.alone value.parts
  | .annotationModifier value => value.alone value.parts
  -- expressions
  | .binary left _ right => left.alone left.parts ++ right.alone right.parts
  | .leading _ operand | .trailing operand _ => operand.alone operand.parts
  | .conditional condition ifTrue ifFalse =>
    condition.alone condition.parts ++ ifTrue.alone ifTrue.parts ++ ifFalse.alone ifFalse.parts
  | .assignment target _ value => target.alone target.parts ++ value.alone value.parts
  | .instanceOf value type => value.alone value.parts ++ type.alone type.parts
  | .cast types value => types.outlines ++ value.alone value.parts
  | .call _ arguments => arguments.outlines
  | .callOn receiver typeArguments _ arguments =>
    receiver.alone receiver.parts ++ typeArguments.outlines ++ arguments.outlines
  | .fieldAccess receiver _ => receiver.alone receiver.parts
  | .arrayAccess array index => array.alone array.parts ++ index.alone index.parts
  | .creation outer typeArguments type _ arguments body _ =>
    outer.outlines ++ typeArguments.outlines ++ type.alone type.parts ++ arguments.outlines ++
      body.outlines
  | .newArray element lengths _ => element.alone element.parts ++ lengths.outlines
  | .newArrayOf element _ values => element.alone element.parts ++ values.outlines
  | .arrayInitializer values => values.outlines
  | .lambda parameters body _ => parameters.alone parameters.parts ++ body.alone body.parts
  | .blockLambda parameters body _ => parameters.alone parameters.parts ++ body.alone body.parts
  | .methodReference receiver typeArguments _ =>
    receiver.alone receiver.parts ++ typeArguments.outlines
  | .classLiteral type _ => type.outlines
  | .exprReceiver value => value.alone value.parts
  | .typeReceiver type => type.alone type.parts
  | .formalParameters parameters => parameters.outlines
  -- statements
  | .block statements _ => statements.outlines
  | .blockStmt body => body.alone body.parts
  | .variablesStmt declared => declared.alone declared.parts
  | .localType declaration => declaration.alone declaration.parts
  | .exprStmt value | .throwStmt value => value.alone value.parts
  | .ifThen condition body | .whileLoop condition body | .doLoop body condition =>
    condition.alone condition.parts ++ body.alone body.parts
  | .ifThenElse condition body otherwise =>
    condition.alone condition.parts ++ body.alone body.parts ++ otherwise.alone otherwise.parts
  | .forLoop start condition update body =>
    start.alone start.parts ++ condition.outlines ++ update.outlines ++ body.alone body.parts
  | .forEach declared iterable body =>
    declared.alone declared.parts ++ iterable.alone iterable.parts ++ body.alone body.parts
  | .labeled _ body => body.alone body.parts
  | .returnStmt value _ => value.outlines
  | .synchronizedStmt lock body => lock.alone lock.parts ++ body.alone body.parts
  | .tryStmt resources body catches atLast =>
    resources.outlines ++ body.alone body.parts ++ catches.outlines ++ atLast.outlines
  | .switchStmt selector groups => selector.alone selector.parts ++ groups.outlines
  | .assertStmt condition message => condition.alone condition.parts ++ message.outlines
  | .constructorCall _ outer typeArguments arguments _ =>
    outer.outlines ++ typeArguments.outlines ++ arguments.outlines
  | .varDeclaration modifiers type declarators =>
    modifiers.outlines ++ type.alone type.parts ++ declarators.outlines
  | .declarator _ _ initial => initial.outlines
  | .exprsStart values => values.outlines
  | .variablesStart declared => declared.alone declared.parts
  | .resource modifiers type _ initial =>
    modifiers.outlines ++ type.alone type.parts ++ initial.alone initial.parts
  | .catchClause modifiers types _ body =>
    modifiers.outlines ++ types.outlines ++ body.alone body.parts
  | .switchGroup labels statements => labels.outlines ++ statements.outlines
  | .caseLabel value => value.alone value.parts
  -- declarations
  | .classDeclaration modifiers _ typeParameters superclass interfaces body =>
    modifiers.outlines ++ typeParameters.outlines ++ superclass.outlines ++ interfaces.outlines ++
      body.alone body.parts
  | .interfaceDeclaration modifiers _ typeParameters interfaces body =>
    modifiers.outlines ++ typeParameters.outlines ++ interfaces.outlines ++ body.alone body.parts
  | .enumDeclaration modifiers _ interfaces constants body =>
    modifiers.outlines ++ interfaces.outlines ++ constants.outlines ++ body.alone body.parts
  | .plainConstant annotations _ body => annotations.outlines ++ body.outlines
  | .constantWith annotations _ arguments body =>
    annotations.outlines ++ arguments.outlines ++ body.outlines
  | .classBody members _ => members.outlines
  | .field declared => declared.alone declared.parts
  | .method modifiers _ result _ parameters exceptions body =>
    modifiers.outlines ++ result.outlines ++ parameters.outlines ++ exceptions.outlines ++
      body.outlines
  | .constructor modifiers _ _ parameters exceptions body =>
    modifiers.outlines ++ parameters.outlines ++ exceptions.outlines ++ body.alone body.parts
  | .memberType declaration => declaration.alone declaration.parts
  | .initializer _ body => body.alone body.parts
  | .parameter modifiers type _ _ => modifiers.outlines ++ type.alone type.parts
  -- source files
  | .packageDeclaration annotations _ => annotations.outlines
  | .unit package _ types => package.outlines ++ types.outlines
  | _ => []

def Row.outlines {category : Category} : Row category → List Outline
  | .nil => []
  | .cons tree rest => .node ⟨tree⟩ tree.parts :: rest.outlines

def Optional.outlines {category : Category} : Optional category → List Outline
  | .absent => []
  | .present tree => [.node ⟨tree⟩ tree.parts]

end

/-- The outline of a tree. -/
def Tree.outline {category : Category} (tree : Tree category) : Outline := .node ⟨tree⟩ tree.parts

end JavaFrontend.Java
