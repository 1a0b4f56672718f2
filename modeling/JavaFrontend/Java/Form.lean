import JavaFrontend.Java.Tree
import JavaFrontend.Text.Form

/-!
Trees as forms: each tree has a head that says what it is, and its parts behind it. What a source
text says no more than once is not repeated: a block that stands as a statement has the form of the
block alone.
-/

namespace JavaFrontend.Java

/-- A name and where it is. -/
def Identifier.form (identifier : Identifier) : Form :=
  .word (identifier.name ++ "@" ++ toString identifier.position)

def QualifiedName.form (name : QualifiedName) : Form :=
  .call "dotted" (name.parts.map Identifier.form)

def Literal.form (literal : Literal) : Form :=
  let position := literal.position.form
  match literal.value with
  | .int value => .call "int" [.word (toString value.toInt), position]
  | .long value => .call "long" [.word (toString value.toInt), position]
  | .float bits => .call "float" [.bits 8 bits.toNat, position]
  | .double bits => .call "double" [.bits 16 bits.toNat, position]
  | .char value => .call "char" [.number value.toNat, position]
  | .string value => .call "string" [.quoted value, position]
  | .boolean value => .call "boolean" [.word (toString value), position]
  | .null => .call "null" [.absent, position]

mutual

/-- The form of a tree. -/
def Tree.form {category : Category} : Tree category → Form
  -- types and annotations
  | .primitiveType annotations kind position =>
    .call "primitive" [.kind kind, .items annotations.forms, position.form]
  | .classType segments => .call "class-type" segments.forms
  | .arrayType element dims => .call "array-type" [element.form, .number dims]
  | .segment annotations name arguments =>
    .call "segment" [.items annotations.forms, name.form, .items arguments.forms]
  | .exactArgument type => type.form
  | .anyArgument => .call "wildcard" []
  | .upperBounded bound => .call "wildcard-extends" [bound.form]
  | .lowerBounded bound => .call "wildcard-super" [bound.form]
  | .typeParameter annotations name bounds =>
    .call "type-parameter" [.items annotations.forms, name.form, .items bounds.forms]
  | .annotationMarker name position =>
    .call "annotation" [name.form, .call "marker" [], position.form]
  | .annotationSingle name value position =>
    .call "annotation" [name.form, .call "single" [value.form], position.form]
  | .annotationPairs name pairs position =>
    .call "annotation" [name.form, .call "pairs" pairs.forms, position.form]
  | .elementExpr value => .call "value" [value.form]
  | .elementArray values => .call "values" values.forms
  | .annotationElement value => value.form
  | .elementPair name value => .call "pair" [name.form, value.form]
  | .wordModifier kind position => .kindAt kind position
  | .annotationModifier value => value.form
  -- expressions
  | .literal value => value.form
  | .nameExpr name => .call "name" (name.parts.map Identifier.form)
  | .thisExpr position => .call "this" [position.form]
  | .qualifiedThis outer => .call "qualified-this" [outer.form]
  | .binary left operator right =>
    .call "binary" [.kind operator, left.form, right.form]
  | .leading operator operand => .call "prefix" [.kind operator, operand.form]
  | .trailing operand operator => .call "postfix" [.kind operator, operand.form]
  | .conditional condition ifTrue ifFalse =>
    .call "ternary" [condition.form, ifTrue.form, ifFalse.form]
  | .assignment target operator value =>
    .call "assign" [.kind operator, target.form, value.form]
  | .instanceOf value type => .call "instanceof" [value.form, type.form]
  | .cast types value => .call "cast" [.items types.forms, value.form]
  | .call name arguments => .call "call" [.absent, .items [], name.form, .items arguments.forms]
  | .callOn receiver typeArguments name arguments =>
    .call "call" [receiver.form, .items typeArguments.forms, name.form, .items arguments.forms]
  | .fieldAccess receiver name => .call "field-access" [receiver.form, name.form]
  | .arrayAccess array index => .call "array-access" [array.form, index.form]
  | .creation outer typeArguments type diamond arguments body position =>
    .call "new" [outer.form, .items typeArguments.forms, type.form, .yesNo diamond,
      .items arguments.forms, body.form, position.form]
  | .newArray element lengths openDims =>
    .call "new-array" [element.form, .items lengths.forms, .number openDims, .absent]
  | .newArrayOf element dims values =>
    .call "new-array" [element.form, .items [], .number dims, .items values.forms]
  | .arrayInitializer values => .call "array-initializer" values.forms
  | .lambda parameters body position =>
    .call "lambda" [parameters.form, body.form, position.form]
  | .blockLambda parameters body position =>
    .call "lambda" [parameters.form, body.form, position.form]
  | .methodReference receiver typeArguments name =>
    .call "method-reference"
      [receiver.form, .items typeArguments.forms, .ofOption (name.map Identifier.form)]
  | .classLiteral type position => .call "class-literal" [type.form, position.form]
  | .nameReceiver name => .call "on-name" [name.form]
  | .exprReceiver value => .call "on" [value.form]
  | .superReceiver position => .call "super" [position.form]
  | .qualifiedSuper outer => .call "qualified-super" [outer.form]
  | .typeReceiver type => .call "on-type" [type.form]
  | .inferredParameters names => .call "inferred" (names.map Identifier.form)
  | .formalParameters parameters => .call "formal" parameters.forms
  -- statements
  | .block statements position => .call "block" [.items statements.forms, position.form]
  | .blockStmt body => body.form
  | .emptyStmt position => .call "empty" [position.form]
  | .variablesStmt declared => declared.form
  | .localType declaration => .call "local-class" [declaration.form]
  | .exprStmt value => .call "expression" [value.form]
  | .ifThen condition body => .call "if" [condition.form, body.form, .absent]
  | .ifThenElse condition body otherwise =>
    .call "if" [condition.form, body.form, otherwise.form]
  | .whileLoop condition body => .call "while" [condition.form, body.form]
  | .doLoop body condition => .call "do" [body.form, condition.form]
  | .forLoop start condition update body =>
    .call "for" [start.form, condition.form, .items update.forms, body.form]
  | .forEach declared iterable body =>
    .call "for-each" [declared.form, iterable.form, body.form]
  | .labeled label body => .call "labeled" [label.form, body.form]
  | .breakStmt label position =>
    .call "break" [.ofOption (label.map Identifier.form), position.form]
  | .continueStmt label position =>
    .call "continue" [.ofOption (label.map Identifier.form), position.form]
  | .returnStmt value position => .call "return" [value.form, position.form]
  | .throwStmt value => .call "throw" [value.form]
  | .synchronizedStmt lock body => .call "synchronized" [lock.form, body.form]
  | .tryStmt resources body catches atLast =>
    .call "try" [.items resources.forms, body.form, .items catches.forms, atLast.form]
  | .switchStmt selector groups => .call "switch" [selector.form, .items groups.forms]
  | .assertStmt condition message => .call "assert" [condition.form, message.form]
  | .constructorCall target outer typeArguments arguments position =>
    let word := match target with
      | .this => "this"
      | .super => "super"
    .call "constructor-call"
      [.word word, outer.form, .items typeArguments.forms, .items arguments.forms, position.form]
  | .varDeclaration modifiers type declarators =>
    .call "local" [.items modifiers.forms, type.form, .items declarators.forms]
  | .declarator name dims initial =>
    .call "declarator" [name.form, .number dims, initial.form]
  | .noStart => .absent
  | .exprsStart values => .items values.forms
  | .variablesStart declared => declared.form
  | .resource modifiers type name initial =>
    .call "resource" [.items modifiers.forms, type.form, name.form, initial.form]
  | .catchClause modifiers types name body =>
    .call "catch" [.items modifiers.forms, .items types.forms, name.form, body.form]
  | .switchGroup labels statements => .call "group" [.items labels.forms, .items statements.forms]
  | .caseLabel value => .call "case" [value.form]
  | .defaultLabel position => .call "default" [position.form]
  -- declarations
  | .classDeclaration modifiers name typeParameters superclass interfaces body =>
    .call "class" [.items modifiers.forms, name.form, .items typeParameters.forms,
      superclass.form, .items interfaces.forms, body.form]
  | .interfaceDeclaration modifiers name typeParameters interfaces body =>
    .call "interface" [.items modifiers.forms, name.form, .items typeParameters.forms,
      .items interfaces.forms, body.form]
  | .enumDeclaration modifiers name interfaces constants body =>
    .call "enum" [.items modifiers.forms, name.form, .items interfaces.forms,
      .items constants.forms,
      body.form]
  | .plainConstant annotations name body =>
    .call "constant" [.items annotations.forms, name.form, .absent, body.form]
  | .constantWith annotations name arguments body =>
    .call "constant" [.items annotations.forms, name.form, .items arguments.forms, body.form]
  | .classBody members position => .call "body" [.items members.forms, position.form]
  | .field (.varDeclaration modifiers type declarators) =>
    .call "field" [.items modifiers.forms, type.form, .items declarators.forms]
  | .method modifiers typeParameters result name parameters exceptions body =>
    let shown := match result with
      | .absent => .word "void"
      | .present type => type.form
    .call "method" [.items modifiers.forms, .items typeParameters.forms, shown, name.form,
      .items parameters.forms, .items exceptions.forms, body.form]
  | .constructor modifiers typeParameters name parameters exceptions body =>
    .call "constructor" [.items modifiers.forms, .items typeParameters.forms, name.form,
      .items parameters.forms, .items exceptions.forms, body.form]
  | .memberType declaration => declaration.form
  | .initializer isStatic body => .call "initializer" [.yesNo isStatic, body.form]
  | .parameter modifiers type name isVariadic =>
    .call (if isVariadic then "varargs" else "parameter")
      [.items modifiers.forms, type.form, name.form]
  -- source files
  | .packageDeclaration annotations name =>
    .call "package" [.items annotations.forms, name.form]
  | .importDeclaration name isStatic onDemand =>
    .call "import" [name.form, .yesNo isStatic, .yesNo onDemand]
  | .unit package imports types =>
    .call "unit" [package.form, .items imports.forms, .items types.forms]

/-- The forms of the trees of a row. -/
def Row.forms {category : Category} : Row category → List Form
  | .nil => []
  | .cons tree rest => tree.form :: rest.forms

/-- The form of a tree that may be left out. -/
def Optional.form {category : Category} : Optional category → Form
  | .absent => .absent
  | .present tree => tree.form

end

end JavaFrontend.Java
