import JavaFrontend.Java.Reduction.Declarations

/-!
Reductions for blocks and statements.
-/

namespace JavaFrontend.Java.Reduction

open OperandM

def statement : OperandM Stmt := nextAs "statement" Node.stmt?

/-- An expression in parentheses. -/
def parenthesized : OperandM Expr := do
  let _ ← expect .leftParen
  let value ← expr
  let _ ← expect .rightParen
  return value

/-- The expressions that a node or the items of a list are. -/
def exprsOf (node : Node) : OperandM (List Expr) := allAs "expression" Node.expr? node.items

/-- Statements in braces, also those of a constructor. -/
def braces : OperandM Node := do
  let position := (← expect .leftBrace).position
  let statements ← allAs "statement" Node.stmt? (← items)
  return .block (.block statements position)

def varDeclaration? : Node → Option (Tree .varDeclaration)
  | .varDeclaration declared => some declared
  | _ => none

def variablesStatement : OperandM Node := do
  return .stmt (.variablesStmt (← nextAs "local variable declaration" varDeclaration?))

def localVariables : OperandM Node := return .varDeclaration (← varDeclaration)

def emptyStatement : OperandM Node := return .stmt (.emptyStmt (← token).position)

def labeledStatement : OperandM Node := do
  let label ← identifier
  let _ ← expect .colon
  return .stmt (.labeled label (← statement))

def exprStatement : OperandM Node := return .stmt (.exprStmt (← expr))

/-- `if (c) s` and `if (c) s else s` -/
def ifStatement : OperandM Node := do
  let _ ← expect .ifWord
  let condition ← parenthesized
  let body ← statement
  if (← eat? .elseWord).isSome then
    return .stmt (.ifThenElse condition body (← statement))
  return .stmt (.ifThen condition body)

def assertStatement : OperandM Node := do
  let _ ← expect .assertWord
  let condition ← expr
  if (← eat? .colon).isSome then
    return .stmt (.assertStmt condition (.present (← expr)))
  return .stmt (.assertStmt condition .absent)

/-! ### Switches -/

def switchStatement : OperandM Node := do
  let _ ← expect .switchWord
  let selector ← parenthesized
  let groups ← nextAs "switch block" fun
    | .switchBlock groups => some groups
    | _ => none
  return .stmt (.switchStmt selector groups)

def switchGroup? : Node → Option (Tree .switchGroup)
  | .switchGroup group => some group
  | _ => none

def switchLabel? : Node → Option (Tree .switchLabel)
  | .switchLabel label => some label
  | _ => none

def isSwitchPart (node : Node) : Bool := (switchGroup? node).isSome || (switchLabel? node).isSome

/-- The groups of a switch. Labels behind the last group make up one more, without statements. -/
def switchBlock : OperandM Node := do
  let parts ← allAs "switch group" (Option.guard isSwitchPart) (← items)
  let groups := parts.filterMap switchGroup?
  match parts.filterMap switchLabel? with
  | [] => return .switchBlock groups
  | labels => return .switchBlock (groups ++ [.switchGroup labels .nil])

def switchGroup : OperandM Node := do
  let parts ← items
  let statements ← allAs "statement" Node.stmt? (parts.filter (switchLabel? · |>.isNone))
  return .switchGroup (.switchGroup (parts.filterMap switchLabel?) statements)

def switchLabel : OperandM Node := do
  let token ← token
  if token.kind = .defaultWord then return .switchLabel (.defaultLabel token.position)
  return .switchLabel (.caseLabel (← expr))

/-! ### Loops -/

def whileStatement : OperandM Node := do
  let _ ← expect .whileWord
  let condition ← parenthesized
  return .stmt (.whileLoop condition (← statement))

def doStatement : OperandM Node := do
  let _ ← expect .doWord
  let body ← statement
  let _ ← expect .whileWord
  let _ ← expect .leftParen
  return .stmt (.doLoop body (← expr))

/-- A loop with a header of three parts, each of which may be left out: the semicolons tell them
apart. -/
def forStatement : OperandM Node := do
  let _ ← expect .forWord
  let _ ← expect .leftParen
  let start : Tree .forStart ←
    if ← nextIs .semicolon then pure .noStart
    else do
      let node ← next
      match varDeclaration? node with
      | some declared => pure (.variablesStart declared)
      | none => pure (.exprsStart (← exprsOf node))
  let _ ← expect .semicolon
  let condition ← takeExpr
  let _ ← expect .semicolon
  let update ← if ← nextIs .rightParen then pure [] else exprsOf (← next)
  let _ ← expect .rightParen
  return .stmt (.forLoop start condition update (← statement))

def forEachStatement : OperandM Node := do
  let _ ← expect .forWord
  let _ ← expect .leftParen
  let modifiers ← modifiers
  let type ← type
  let declarator ← nextAs "variable name" declarator?
  let _ ← expect .colon
  let iterable ← expr
  let _ ← expect .rightParen
  return .stmt (.forEach (.varDeclaration modifiers type [declarator]) iterable (← statement))

/-! ### Jumps -/

/-- `break label;` and `continue label;` -/
def jumpStatement : OperandM Node := do
  let token ← token
  let label ← takeIdentifier
  if token.kind = .breakWord then return .stmt (.breakStmt label token.position)
  return .stmt (.continueStmt label token.position)

def returnStatement : OperandM Node := do
  let position := (← expect .returnWord).position
  return .stmt (.returnStmt (← takeExpr) position)

def throwStatement : OperandM Node := do
  let _ ← expect .throwWord
  return .stmt (.throwStmt (← expr))

def synchronizedStatement : OperandM Node := do
  let _ ← expect .synchronizedWord
  let lock ← parenthesized
  return .stmt (.synchronizedStmt lock (← block))

/-! ### Try statements -/

def catchClause? : Node → Option (Tree .catchClause)
  | .catchClause clause => some clause
  | _ => none

def finallyBlock? : Node → Option Block
  | .finallyBlock block => some block
  | _ => none

def isTryPart (node : Node) : Bool := (catchClause? node).isSome || (finallyBlock? node).isSome

def tryStatement : OperandM Node := do
  let _ ← expect .tryWord
  let resources ← take? fun
    | .resources resources => some resources
    | _ => none
  let body ← block
  let parts ← allAs "catch or finally" (Option.guard isTryPart) (← items)
  return .stmt (.tryStmt (resources.getD []) body (parts.filterMap catchClause?)
    (parts.filterMap finallyBlock?).getLast?)

def catchClause : OperandM Node := do
  let _ ← expect .catchWord
  let _ ← expect .leftParen
  let modifiers ← modifiers
  let types ← allAs "type" type? (← next).items
  let name ← identifier
  let _ ← expect .rightParen
  return .catchClause (.catchClause modifiers types name (← block))

def finallyBlock : OperandM Node := do
  let _ ← expect .finallyWord
  return .finallyBlock (← block)

def resources : OperandM Node := do
  let resources ← allAs "resource" (fun
    | .resource resource => some resource
    | _ => none) (← items)
  return .resources resources

def resource : OperandM Node := do
  let modifiers ← modifiers
  let type ← type
  let name ← identifier
  let _ ← expect .assign
  return .resource (.resource modifiers type name (← expr))

end JavaFrontend.Java.Reduction
