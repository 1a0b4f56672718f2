import JavaFrontend.Java.Literal
import JavaFrontend.Java.Name

/-!
The syntax trees of Java sources. Types, expressions, statements and declarations contain one
another: an annotation may hold an expression, a lambda a block, an object creation a class body.
So all of them make up one family of types, with one member for each category of tree.
-/

namespace JavaFrontend.Java

/-- The categories of trees. -/
inductive Category where
  -- types and annotations
  | type | segment | typeArgument | typeParameter | annotationUse | elementValue | elementPair
  | modifier
  -- expressions
  | expr | receiver | lambdaParameters
  -- statements
  | block | stmt | varDeclaration | declarator | forStart | resource | catchClause | switchGroup
  | switchLabel
  -- declarations
  | typeDeclaration | enumConstant | classBody | member | parameter
  -- source files
  | packageDeclaration | importDeclaration | unit
deriving DecidableEq, Repr

/-- Which constructor a constructor calls first: another one of its class or one of the
superclass. -/
inductive ConstructorTarget where
  | this | super
deriving DecidableEq, Repr

mutual

/-- The trees of each category. -/
inductive Tree : Category → Type where
  -- types and annotations
  | primitiveType (annotations : Row .annotationUse) (kind : Kind) (position : Position) :
    Tree .type
  /-- A class or interface, with type arguments at any of its segments. -/
  | classType (segments : Row .segment) : Tree .type
  | arrayType (element : Tree .type) (dims : Nat) : Tree .type
  /-- One segment of a class type: `@A Map<K, V>`. -/
  | segment (annotations : Row .annotationUse) (name : Identifier) (arguments : Row .typeArgument) :
    Tree .segment
  | exactArgument (type : Tree .type) : Tree .typeArgument
  /-- `?` -/
  | anyArgument : Tree .typeArgument
  /-- `? extends T` -/
  | upperBounded (bound : Tree .type) : Tree .typeArgument
  /-- `? super T` -/
  | lowerBounded (bound : Tree .type) : Tree .typeArgument
  /-- `@A T extends X & Y` -/
  | typeParameter (annotations : Row .annotationUse) (name : Identifier) (bounds : Row .type) :
    Tree .typeParameter
  /-- An annotation without arguments, with or without parentheses. -/
  | annotationMarker (name : QualifiedName) (position : Position) : Tree .annotationUse
  | annotationSingle (name : QualifiedName) (value : Tree .elementValue) (position : Position) :
    Tree .annotationUse
  | annotationPairs (name : QualifiedName) (pairs : Row .elementPair) (position : Position) :
    Tree .annotationUse
  | elementExpr (value : Tree .expr) : Tree .elementValue
  | elementArray (values : Row .elementValue) : Tree .elementValue
  | annotationElement (value : Tree .annotationUse) : Tree .elementValue
  | elementPair (name : Identifier) (value : Tree .elementValue) : Tree .elementPair
  | wordModifier (kind : Kind) (position : Position) : Tree .modifier
  | annotationModifier (value : Tree .annotationUse) : Tree .modifier
  -- expressions
  | literal (value : Literal) : Tree .expr
  /-- A local, a field or a class: which of them is not a matter of syntax. -/
  | nameExpr (name : QualifiedName) : Tree .expr
  | thisExpr (position : Position) : Tree .expr
  /-- `Outer.this` -/
  | qualifiedThis (outer : QualifiedName) : Tree .expr
  | binary (left : Tree .expr) (operator : Kind) (right : Tree .expr) : Tree .expr
  /-- An operator before its operand: `-a`, `++a`. -/
  | leading (operator : Kind) (operand : Tree .expr) : Tree .expr
  /-- An operator after its operand: `a++`. -/
  | trailing (operand : Tree .expr) (operator : Kind) : Tree .expr
  | conditional (condition ifTrue ifFalse : Tree .expr) : Tree .expr
  | assignment (target : Tree .expr) (operator : Kind) (value : Tree .expr) : Tree .expr
  | instanceOf (value : Tree .expr) (type : Tree .type) : Tree .expr
  /-- `(A & B) value` -/
  | cast (types : Row .type) (value : Tree .expr) : Tree .expr
  /-- `name(arguments)` -/
  | call (name : Identifier) (arguments : Row .expr) : Tree .expr
  /-- `receiver.<T>name(arguments)` -/
  | callOn (receiver : Tree .receiver) (typeArguments : Row .typeArgument) (name : Identifier)
      (arguments : Row .expr) : Tree .expr
  | fieldAccess (receiver : Tree .receiver) (name : Identifier) : Tree .expr
  | arrayAccess (array index : Tree .expr) : Tree .expr
  /-- `outer.new <T>Type<>(arguments) body`; the body makes the class anonymous. -/
  | creation (outer : Optional .expr) (typeArguments : Row .typeArgument) (type : Tree .type)
      (diamond : Bool) (arguments : Row .expr) (body : Optional .classBody)
      (position : Position) : Tree .expr
  /-- `new T[a][b][]` -/
  | newArray (element : Tree .type) (lengths : Row .expr) (openDims : Nat) : Tree .expr
  /-- `new T[][] values`, the values being in braces. -/
  | newArrayOf (element : Tree .type) (dims : Nat) (values : Row .expr) : Tree .expr
  /-- Values in braces, as the initial value of a variable. -/
  | arrayInitializer (values : Row .expr) : Tree .expr
  | lambda (parameters : Tree .lambdaParameters) (body : Tree .expr) (position : Position) :
    Tree .expr
  | blockLambda (parameters : Tree .lambdaParameters) (body : Tree .block)
      (position : Position) : Tree .expr
  /-- `receiver::<T>name`, or `Type::new` if there is no name. -/
  | methodReference (receiver : Tree .receiver) (typeArguments : Row .typeArgument)
      (name : Option Identifier) : Tree .expr
  /-- `Type.class`, or `void.class` if there is no type. -/
  | classLiteral (type : Optional .type) (position : Position) : Tree .expr
  | nameReceiver (name : QualifiedName) : Tree .receiver
  | exprReceiver (value : Tree .expr) : Tree .receiver
  | superReceiver (position : Position) : Tree .receiver
  /-- `Outer.super` -/
  | qualifiedSuper (outer : QualifiedName) : Tree .receiver
  | typeReceiver (type : Tree .type) : Tree .receiver
  | inferredParameters (names : List Identifier) : Tree .lambdaParameters
  | formalParameters (parameters : Row .parameter) : Tree .lambdaParameters
  -- statements
  | block (statements : Row .stmt) (position : Position) : Tree .block
  | blockStmt (body : Tree .block) : Tree .stmt
  | emptyStmt (position : Position) : Tree .stmt
  | variablesStmt (declared : Tree .varDeclaration) : Tree .stmt
  | localType (declaration : Tree .typeDeclaration) : Tree .stmt
  | exprStmt (value : Tree .expr) : Tree .stmt
  | ifThen (condition : Tree .expr) (body : Tree .stmt) : Tree .stmt
  | ifThenElse (condition : Tree .expr) (body otherwise : Tree .stmt) : Tree .stmt
  | whileLoop (condition : Tree .expr) (body : Tree .stmt) : Tree .stmt
  | doLoop (body : Tree .stmt) (condition : Tree .expr) : Tree .stmt
  | forLoop (start : Tree .forStart) (condition : Optional .expr) (update : Row .expr)
      (body : Tree .stmt) : Tree .stmt
  | forEach (declared : Tree .varDeclaration) (iterable : Tree .expr) (body : Tree .stmt) :
    Tree .stmt
  | labeled (label : Identifier) (body : Tree .stmt) : Tree .stmt
  | breakStmt (label : Option Identifier) (position : Position) : Tree .stmt
  | continueStmt (label : Option Identifier) (position : Position) : Tree .stmt
  | returnStmt (value : Optional .expr) (position : Position) : Tree .stmt
  | throwStmt (value : Tree .expr) : Tree .stmt
  | synchronizedStmt (lock : Tree .expr) (body : Tree .block) : Tree .stmt
  | tryStmt (resources : Row .resource) (body : Tree .block) (catches : Row .catchClause)
      (atLast : Optional .block) : Tree .stmt
  | switchStmt (selector : Tree .expr) (groups : Row .switchGroup) : Tree .stmt
  | assertStmt (condition : Tree .expr) (message : Optional .expr) : Tree .stmt
  /-- `outer.<T>super(arguments);` as the first statement of a constructor. -/
  | constructorCall (target : ConstructorTarget) (outer : Optional .expr)
      (typeArguments : Row .typeArgument) (arguments : Row .expr) (position : Position) :
    Tree .stmt
  /-- Variables declared together: `final T a, b[] = c`. -/
  | varDeclaration (modifiers : Row .modifier) (type : Tree .type) (declarators : Row .declarator) :
    Tree .varDeclaration
  | declarator (name : Identifier) (dims : Nat) (initial : Optional .expr) : Tree .declarator
  | noStart : Tree .forStart
  | exprsStart (values : Row .expr) : Tree .forStart
  | variablesStart (declared : Tree .varDeclaration) : Tree .forStart
  /-- A variable that a `try` statement closes at its end. -/
  | resource (modifiers : Row .modifier) (type : Tree .type) (name : Identifier)
      (initial : Tree .expr) : Tree .resource
  | catchClause (modifiers : Row .modifier) (types : Row .type) (name : Identifier)
      (body : Tree .block) : Tree .catchClause
  /-- Labels of a `switch` and the statements behind them. -/
  | switchGroup (labels : Row .switchLabel) (statements : Row .stmt) : Tree .switchGroup
  | caseLabel (value : Tree .expr) : Tree .switchLabel
  | defaultLabel (position : Position) : Tree .switchLabel
  -- declarations
  | classDeclaration (modifiers : Row .modifier) (name : Identifier)
      (typeParameters : Row .typeParameter) (superclass : Optional .type)
      (interfaces : Row .type) (body : Tree .classBody) : Tree .typeDeclaration
  | interfaceDeclaration (modifiers : Row .modifier) (name : Identifier)
      (typeParameters : Row .typeParameter) (interfaces : Row .type) (body : Tree .classBody) :
    Tree .typeDeclaration
  /-- An enumeration, whose body holds the members after the constants. -/
  | enumDeclaration (modifiers : Row .modifier) (name : Identifier) (interfaces : Row .type)
      (constants : Row .enumConstant) (body : Tree .classBody) : Tree .typeDeclaration
  /-- A constant without an argument list. -/
  | plainConstant (annotations : Row .annotationUse) (name : Identifier)
      (body : Optional .classBody) : Tree .enumConstant
  | constantWith (annotations : Row .annotationUse) (name : Identifier) (arguments : Row .expr)
      (body : Optional .classBody) : Tree .enumConstant
  /-- Members in braces, or behind the constants of an enumeration. -/
  | classBody (members : Row .member) (position : Position) : Tree .classBody
  | field (declared : Tree .varDeclaration) : Tree .member
  /-- The result is `void` if there is none, and the method abstract if it has no body. -/
  | method (modifiers : Row .modifier) (typeParameters : Row .typeParameter)
      (result : Optional .type) (name : Identifier) (parameters : Row .parameter)
      (exceptions : Row .type) (body : Optional .block) : Tree .member
  | constructor (modifiers : Row .modifier) (typeParameters : Row .typeParameter)
      (name : Identifier) (parameters : Row .parameter) (exceptions : Row .type)
      (body : Tree .block) : Tree .member
  | memberType (declaration : Tree .typeDeclaration) : Tree .member
  | initializer (isStatic : Bool) (body : Tree .block) : Tree .member
  | parameter (modifiers : Row .modifier) (type : Tree .type) (name : Identifier)
      (isVariadic : Bool) : Tree .parameter
  -- source files
  | packageDeclaration (annotations : Row .annotationUse) (name : QualifiedName) :
    Tree .packageDeclaration
  /-- `import static a.b.*;` -/
  | importDeclaration (name : QualifiedName) (isStatic onDemand : Bool) : Tree .importDeclaration
  | unit (package : Optional .packageDeclaration) (imports : Row .importDeclaration)
      (types : Row .typeDeclaration) :
    Tree .unit

/-- Any number of trees of one category. -/
inductive Row : Category → Type where
  | nil {category : Category} : Row category
  | cons {category : Category} (head : Tree category) (tail : Row category) : Row category

/-- At most one tree of a category. -/
inductive Optional : Category → Type where
  | absent {category : Category} : Optional category
  | present {category : Category} (tree : Tree category) : Optional category

end

namespace Row

def ofList {category : Category} : List (Tree category) → Row category
  | [] => .nil
  | tree :: rest => .cons tree (ofList rest)

def toList {category : Category} : Row category → List (Tree category)
  | .nil => []
  | .cons tree rest => tree :: rest.toList

instance {category : Category} : Coe (List (Tree category)) (Row category) where
  coe := ofList

@[simp] theorem toList_ofList {category : Category} (trees : List (Tree category)) :
    (ofList trees).toList = trees := by
  induction trees with
  | nil => rfl
  | cons tree rest ih => simp [ofList, toList, ih]

@[simp] theorem ofList_toList {category : Category} : (row : Row category) →
    ofList row.toList = row
  | .nil => rfl
  | .cons tree rest => by simp [ofList, toList, ofList_toList rest]

end Row

namespace Optional

def ofOption {category : Category} : Option (Tree category) → Optional category
  | none => .absent
  | some tree => .present tree

def toOption {category : Category} : Optional category → Option (Tree category)
  | .absent => none
  | .present tree => some tree

instance {category : Category} : Coe (Option (Tree category)) (Optional category) where
  coe := ofOption

@[simp] theorem toOption_ofOption {category : Category} (tree : Option (Tree category)) :
    (ofOption tree).toOption = tree := by
  cases tree <;> rfl

end Optional

/-- A type as it is written. -/
abbrev TypeExpr := Tree .type

abbrev Expr := Tree .expr

abbrev Stmt := Tree .stmt

/-- A block in braces. -/
abbrev Block := Tree .block

abbrev AnnotationUse := Tree .annotationUse

abbrev ClassBody := Tree .classBody

abbrev TypeDeclaration := Tree .typeDeclaration

/-- A whole source file. -/
abbrev CompilationUnit := Tree .unit

/-- The type with more array dimensions, which are counted in 32 bits. -/
def Tree.withDims : TypeExpr → Nat → TypeExpr
  | type, 0 => type
  | .arrayType element dims, more => .arrayType element ((dims + more) % UInt32.size)
  | type, dims => .arrayType type dims

end JavaFrontend.Java
