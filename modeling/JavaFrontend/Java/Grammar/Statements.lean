import JavaFrontend.Java.Grammar.Writing

/-!
Blocks and statements. A statement "without short if" is one that an `else` cannot continue, so an
`else` always belongs to the nearest `if`.
-/

namespace JavaFrontend.Java.Grammar

/-- The rules of statements. -/
def statements : List Alternative :=
  define "Block" [[token .leftBrace, many ["BlockStatement"], token .rightBrace]] ++
  define "BlockStatement" [
    ["LocalVariableDeclarationStatement"], ["ClassDeclaration"], ["Statement"]] ++
  define "LocalVariableDeclarationStatement" [["LocalVariableDeclaration", token .semicolon]] ++
  define "LocalVariableDeclaration" [
    [many ["VariableModifier"], "Type", "VariableDeclaratorList"]] ++
  define "Statement" [
    ["StatementWithoutTrailingSubstatement"], ["LabeledStatement"], ["IfThenStatement"],
    ["IfThenElseStatement"], ["WhileStatement"], ["ForStatement"]] ++
  define "StatementNoShortIf" [
    ["StatementWithoutTrailingSubstatement"], ["LabeledStatementNoShortIf"],
    ["IfThenElseStatementNoShortIf"], ["WhileStatementNoShortIf"], ["ForStatementNoShortIf"]] ++
  define "StatementWithoutTrailingSubstatement" [
    ["Block"], ["EmptyStatement"], ["ExpressionStatement"], ["AssertStatement"],
    ["SwitchStatement"], ["DoStatement"], ["BreakStatement"], ["ContinueStatement"],
    ["ReturnStatement"], ["SynchronizedStatement"], ["ThrowStatement"], ["TryStatement"]] ++
  define "EmptyStatement" [[token .semicolon]] ++
  define "LabeledStatement" [[token .identifier, token .colon, "Statement"]] ++
  define "LabeledStatementNoShortIf" [[token .identifier, token .colon, "StatementNoShortIf"]] ++
  define "ExpressionStatement" [["StatementExpression", token .semicolon]] ++
  define "StatementExpression" [
    ["Assignment"], ["PreIncrementExpression"], ["PreDecrementExpression"],
    ["PostIncrementExpression"], ["PostDecrementExpression"], ["MethodInvocation"],
    ["ClassInstanceCreationExpression"]] ++
  define "IfThenStatement" [
    [token .ifWord, token .leftParen, "Expression", token .rightParen, "Statement"]] ++
  define "IfThenElseStatement" [
    [token .ifWord, token .leftParen, "Expression", token .rightParen, "StatementNoShortIf",
      token .elseWord, "Statement"]] ++
  define "IfThenElseStatementNoShortIf" [
    [token .ifWord, token .leftParen, "Expression", token .rightParen, "StatementNoShortIf",
      token .elseWord, "StatementNoShortIf"]] ++
  define "AssertStatement" [
    [token .assertWord, "Expression", token .semicolon],
    [token .assertWord, "Expression", token .colon, "Expression", token .semicolon]] ++
  define "SwitchStatement" [
    [token .switchWord, token .leftParen, "Expression", token .rightParen, "SwitchBlock"]] ++
  define "SwitchBlock" [
    [token .leftBrace, many ["SwitchBlockStatementGroup"], many ["SwitchLabel"],
      token .rightBrace]] ++
  define "SwitchBlockStatementGroup" [
    ["SwitchLabel", many ["SwitchLabel"], "BlockStatement", many ["BlockStatement"]]] ++
  define "SwitchLabel" [
    [token .caseWord, "Expression", token .colon], [token .defaultWord, token .colon]] ++
  define "WhileStatement" [
    [token .whileWord, token .leftParen, "Expression", token .rightParen, "Statement"]] ++
  define "WhileStatementNoShortIf" [
    [token .whileWord, token .leftParen, "Expression", token .rightParen, "StatementNoShortIf"]] ++
  define "DoStatement" [
    [token .doWord, "Statement", token .whileWord, token .leftParen, "Expression",
      token .rightParen, token .semicolon]] ++
  define "ForStatement" [["BasicForStatement"], ["EnhancedForStatement"]] ++
  define "ForStatementNoShortIf" [
    ["BasicForStatementNoShortIf"], ["EnhancedForStatementNoShortIf"]] ++
  define "BasicForStatement" [
    [token .forWord, token .leftParen, maybe ["ForInit"], token .semicolon, maybe ["Expression"],
      token .semicolon, maybe ["StatementExpressionList"], token .rightParen, "Statement"]] ++
  define "BasicForStatementNoShortIf" [
    [token .forWord, token .leftParen, maybe ["ForInit"], token .semicolon, maybe ["Expression"],
      token .semicolon, maybe ["StatementExpressionList"], token .rightParen,
      "StatementNoShortIf"]] ++
  define "ForInit" [["StatementExpressionList"], ["LocalVariableDeclaration"]] ++
  define "StatementExpressionList" [
    ["StatementExpression", many [token .comma, "StatementExpression"]]] ++
  define "EnhancedForStatement" [
    [token .forWord, token .leftParen, many ["VariableModifier"], "Type", "VariableDeclaratorId",
      token .colon, "Expression", token .rightParen, "Statement"]] ++
  define "EnhancedForStatementNoShortIf" [
    [token .forWord, token .leftParen, many ["VariableModifier"], "Type", "VariableDeclaratorId",
      token .colon, "Expression", token .rightParen, "StatementNoShortIf"]] ++
  define "BreakStatement" [[token .breakWord, maybe [token .identifier], token .semicolon]] ++
  define "ContinueStatement" [[token .continueWord, maybe [token .identifier], token .semicolon]] ++
  define "ReturnStatement" [[token .returnWord, maybe ["Expression"], token .semicolon]] ++
  define "ThrowStatement" [[token .throwWord, "Expression", token .semicolon]] ++
  define "SynchronizedStatement" [
    [token .synchronizedWord, token .leftParen, "Expression", token .rightParen, "Block"]] ++
  define "TryStatement" [
    [token .tryWord, "Block", "CatchClause", many ["CatchClause"]],
    [token .tryWord, "Block", many ["CatchClause"], "Finally"],
    [token .tryWord, "ResourceSpecification", "Block", many ["CatchClause"], maybe ["Finally"]]] ++
  define "CatchClause" [
    [token .catchWord, token .leftParen, many ["VariableModifier"], "CatchType", token .identifier,
      token .rightParen, "Block"]] ++
  define "CatchType" [["ClassType", many [token .bar, "ClassType"]]] ++
  define "Finally" [[token .finallyWord, "Block"]] ++
  define "ResourceSpecification" [
    [token .leftParen, "Resource", many [token .semicolon, "Resource"], maybe [token .semicolon],
      token .rightParen]] ++
  define "Resource" [
    [many ["VariableModifier"], "Type", token .identifier, token .assign, "Expression"]]

end JavaFrontend.Java.Grammar
