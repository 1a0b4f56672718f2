import JavaFrontend.Java.Tree

/-!
Nodes: what the parts of a rule are matched with and what a completed rule is made into. Leaves
come from tokens, typed nodes hold pieces of Java syntax, lists hold what a repetition matched, and
generic nodes stand for rules of grammars without trees of their own.
-/

namespace JavaFrontend

open Java

inductive Node where
  | token (token : Token)
  | identifier (identifier : Identifier)
  | literal (literal : Literal)
  | name (name : QualifiedName)
  | type (type : TypeExpr)
  | dims (count : Nat)
  | typeArguments (arguments : List (Tree .typeArgument))
  | typeArgument (argument : Tree .typeArgument)
  | diamond
  | typeParameters (parameters : List (Tree .typeParameter))
  | typeParameter (parameter : Tree .typeParameter)
  | annotationUse (annotationUse : AnnotationUse)
  | elementValue (value : Tree .elementValue)
  | elementPair (pair : Tree .elementPair)
  | modifier (modifier : Tree .modifier)
  | expr (expr : Expr)
  | arguments (arguments : List Expr)
  | lambdaParameters (parameters : Tree .lambdaParameters)
  | stmt (stmt : Stmt)
  | block (block : Block)
  | varDeclaration (declared : Tree .varDeclaration)
  | declarator (declarator : Tree .declarator)
  | parameter (parameter : Tree .parameter)
  | catchClause (clause : Tree .catchClause)
  | finallyBlock (block : Block)
  | resources (resources : List (Tree .resource))
  | resource (resource : Tree .resource)
  | switchLabel (label : Tree .switchLabel)
  | switchGroup (group : Tree .switchGroup)
  | switchBlock (groups : List (Tree .switchGroup))
  | superclass (type : TypeExpr)
  | interfaces (types : List TypeExpr)
  | exceptions (types : List TypeExpr)
  | classBody (body : ClassBody)
  | member (member : Tree .member)
  | enumConstant (constant : Tree .enumConstant)
  | enumBody (constants : List (Tree .enumConstant)) (body : ClassBody)
  | typeDeclaration (declaration : TypeDeclaration)
  | package (declaration : Tree .packageDeclaration)
  | importing (declaration : Tree .importDeclaration)
  | unit (unit : CompilationUnit)
  /-- What a repetition or a rule for lists matched, and the name of that rule. -/
  | list (rule : String) (items : List Node)
  /-- A lone semicolon where a declaration or a statement may stand. -/
  | empty (position : Position)
  /-- A rule without a tree of its own, and what its parts were matched with. -/
  | generic (rule : String) (children : List Node)

namespace Node

/-- What messages call such a node. -/
def kindName : Node → String
  | .token _ => "token"
  | .identifier _ => "identifier"
  | .literal _ => "literal"
  | .name _ => "name"
  | .type _ => "type"
  | .dims _ => "dims"
  | .typeArguments _ => "type arguments"
  | .typeArgument _ => "type argument"
  | .diamond => "diamond"
  | .typeParameters _ => "type parameters"
  | .typeParameter _ => "type parameter"
  | .annotationUse _ => "annotation"
  | .elementValue _ => "element value"
  | .elementPair _ => "element value pair"
  | .modifier _ => "modifier"
  | .expr _ => "expression"
  | .arguments _ => "arguments"
  | .lambdaParameters _ => "lambda parameters"
  | .stmt _ => "statement"
  | .block _ => "block"
  | .varDeclaration _ => "local variable"
  | .declarator _ => "variable declarator"
  | .parameter _ => "formal parameter"
  | .catchClause _ => "catch clause"
  | .finallyBlock _ => "finally"
  | .resources _ => "resources"
  | .resource _ => "resource"
  | .switchLabel _ => "switch label"
  | .switchGroup _ => "switch group"
  | .switchBlock _ => "switch block"
  | .superclass _ => "superclass"
  | .interfaces _ => "interfaces"
  | .exceptions _ => "throws"
  | .classBody _ => "class body"
  | .member _ => "member"
  | .enumConstant _ => "enum constant"
  | .enumBody _ _ => "enum body"
  | .typeDeclaration _ => "type declaration"
  | .package _ => "package"
  | .importing _ => "import"
  | .unit _ => "compilation unit"
  | .list _ _ => "list"
  | .empty _ => "empty"
  | .generic _ _ => "generic node"

/-- The leaf for a token: an identifier, a literal, or else the token itself. -/
def ofToken (token : Token) : Node :=
  if token.kind = .identifier then .identifier ⟨token.text, token.position⟩
  else
    match LiteralValue.ofToken? token with
    | some value => .literal ⟨value, token.position⟩
    | none => .token token

/-- The kind of a leaf that is neither an identifier nor a literal. -/
def tokenKind? : Node → Option Kind
  | .token leaf => some leaf.kind
  | _ => none

def isToken (node : Node) : Bool := node.tokenKind?.isSome

/-- The items of a list; any other node is an item by itself. -/
def items : Node → List Node
  | .list _ items => items
  | node => [node]

/-- The expression that the node is: names and literals are expressions too. -/
def expr? : Node → Option Expr
  | .expr e => some e
  | .name n => some (.nameExpr n)
  | .literal l => some (.literal l)
  | .identifier i => some (.nameExpr (.ofIdentifier i))
  | _ => none

/-- The statement that the node is: a block, variables, a local type and a lone semicolon may stand
where a statement may. -/
def stmt? : Node → Option Stmt
  | .stmt s => some s
  | .block body => some (.blockStmt body)
  | .varDeclaration declared => some (.variablesStmt declared)
  | .typeDeclaration declaration => some (.localType declaration)
  | .empty position => some (.emptyStmt position)
  | _ => none

/-- The member that the node is; a type and a block are members too. -/
def member? : Node → Option (Tree .member)
  | .member m => some m
  | .typeDeclaration declaration => some (.memberType declaration)
  | .block body => some (.initializer false body)
  | _ => none

mutual

/-- The kinds of the leaves of the node from left to right, where lists and generic nodes are the
inner nodes and typed nodes have no leaves. -/
def leafKinds : Node → List Kind
  | .token leaf => [leaf.kind]
  | .identifier _ => [.identifier]
  | .literal l => [l.value.kind]
  | .list _ nodes | .generic _ nodes => leafKindsOfAll nodes
  | _ => []

def leafKindsOfAll : List Node → List Kind
  | [] => []
  | node :: rest => node.leafKinds ++ leafKindsOfAll rest

end

end Node

end JavaFrontend
