import JavaFrontend.Java.Grammar.Writing

/-!
Expressions, one rule for each level of precedence.
-/

namespace JavaFrontend.Java.Grammar

/-- The rules of expressions. -/
def expressions : List Alternative :=
  define "Primary" [["PrimaryNoNewArray"], ["ArrayCreationExpression"]] ++
  define "PrimaryNoNewArray" [
    ["Literal"], ["ClassLiteral"], [token .thisWord], ["DottedName", token .dot, token .thisWord],
    [token .leftParen, "Expression", token .rightParen], ["ClassInstanceCreationExpression"],
    ["FieldAccess"], ["ArrayAccess"], ["MethodInvocation"], ["MethodReference"]] ++
  define "Literal" [
    [token .intLiteral], [token .longLiteral], [token .floatLiteral], [token .doubleLiteral],
    [token .charLiteral], [token .stringLiteral], [token .trueLiteral], [token .falseLiteral],
    [token .nullLiteral]] ++
  define "ClassLiteral" [
    ["DottedName", maybe ["Dims"], token .dot, token .classWord],
    ["PrimitiveType", maybe ["Dims"], token .dot, token .classWord],
    [token .voidWord, token .dot, token .classWord]] ++
  define "ClassInstanceCreationExpression" [
    ["UnqualifiedClassInstanceCreationExpression"],
    ["DottedName", token .dot, "UnqualifiedClassInstanceCreationExpression"],
    ["Primary", token .dot, "UnqualifiedClassInstanceCreationExpression"]] ++
  define "UnqualifiedClassInstanceCreationExpression" [
    [token .newWord, maybe ["TypeArguments"], "ClassType", maybe ["Diamond"], "Arguments",
      maybe ["ClassBody"]]] ++
  define "Diamond" [[token .less, token .greater]] ++
  define "Arguments" [
    [token .leftParen, maybe ["Expression", many [token .comma, "Expression"]],
      token .rightParen]] ++
  define "FieldAccess" [
    ["Primary", token .dot, token .identifier], [token .superWord, token .dot, token .identifier],
    ["DottedName", token .dot, token .superWord, token .dot, token .identifier]] ++
  define "ArrayAccess" [
    ["DottedName", token .leftBracket, "Expression", token .rightBracket],
    ["PrimaryNoNewArray", token .leftBracket, "Expression", token .rightBracket]] ++
  define "MethodInvocation" [
    ["DottedName", "Arguments"],
    ["DottedName", token .dot, "TypeArguments", token .identifier, "Arguments"],
    ["Primary", token .dot, maybe ["TypeArguments"], token .identifier, "Arguments"],
    [token .superWord, token .dot, maybe ["TypeArguments"], token .identifier, "Arguments"],
    ["DottedName", token .dot, token .superWord, token .dot, maybe ["TypeArguments"],
      token .identifier, "Arguments"]] ++
  define "MethodReference" [
    ["DottedName", token .doubleColon, maybe ["TypeArguments"], token .identifier],
    ["Primary", token .doubleColon, maybe ["TypeArguments"], token .identifier],
    [token .superWord, token .doubleColon, maybe ["TypeArguments"], token .identifier],
    ["DottedName", token .dot, token .superWord, token .doubleColon, maybe ["TypeArguments"],
      token .identifier],
    ["ClassType", token .doubleColon, maybe ["TypeArguments"], token .newWord],
    ["ArrayType", token .doubleColon, token .newWord]] ++
  define "ArrayCreationExpression" [
    [token .newWord, "PrimitiveType", "DimExprs", maybe ["Dims"]],
    [token .newWord, "ClassType", "DimExprs", maybe ["Dims"]],
    [token .newWord, "PrimitiveType", "Dims", "ArrayInitializer"],
    [token .newWord, "ClassType", "Dims", "ArrayInitializer"]] ++
  define "DimExprs" [["DimExpr", many ["DimExpr"]]] ++
  define "DimExpr" [[token .leftBracket, "Expression", token .rightBracket]] ++
  define "Expression" [["LambdaExpression"], ["AssignmentExpression"]] ++
  define "LambdaExpression" [["LambdaParameters", token .arrow, "LambdaBody"]] ++
  define "LambdaParameters" [
    [token .identifier], [token .leftParen, token .rightParen],
    [token .leftParen, "FormalParameterList", token .rightParen],
    [token .leftParen, token .identifier, many [token .comma, token .identifier],
      token .rightParen]] ++
  define "LambdaBody" [["Expression"], ["Block"]] ++
  define "AssignmentExpression" [["ConditionalExpression"], ["Assignment"]] ++
  define "Assignment" [["LeftHandSide", "AssignmentOperator", "Expression"]] ++
  define "LeftHandSide" [["DottedName"], ["FieldAccess"], ["ArrayAccess"]] ++
  define "AssignmentOperator" [
    [token .assign], [token .starAssign], [token .slashAssign], [token .percentAssign],
    [token .plusAssign], [token .minusAssign], [token .leftShiftAssign], [token .rightShiftAssign],
    [token .unsignedShiftAssign], [token .ampersandAssign], [token .caretAssign],
    [token .barAssign]] ++
  define "ConditionalExpression" [
    ["ConditionalOrExpression"],
    ["ConditionalOrExpression", token .question, "Expression", token .colon,
      "ConditionalExpression"],
    ["ConditionalOrExpression", token .question, "Expression", token .colon, "LambdaExpression"]] ++
  define "ConditionalOrExpression" [
    ["ConditionalAndExpression"],
    ["ConditionalOrExpression", token .orOr, "ConditionalAndExpression"]] ++
  define "ConditionalAndExpression" [
    ["InclusiveOrExpression"],
    ["ConditionalAndExpression", token .andAnd, "InclusiveOrExpression"]] ++
  define "InclusiveOrExpression" [
    ["ExclusiveOrExpression"], ["InclusiveOrExpression", token .bar, "ExclusiveOrExpression"]] ++
  define "ExclusiveOrExpression" [
    ["AndExpression"], ["ExclusiveOrExpression", token .caret, "AndExpression"]] ++
  define "AndExpression" [
    ["EqualityExpression"], ["AndExpression", token .ampersand, "EqualityExpression"]] ++
  define "EqualityExpression" [
    ["RelationalExpression"], ["EqualityExpression", token .equalEqual, "RelationalExpression"],
    ["EqualityExpression", token .notEqual, "RelationalExpression"]] ++
  define "RelationalExpression" [
    ["ShiftExpression"], ["RelationalExpression", token .less, "ShiftExpression"],
    ["RelationalExpression", token .greater, "ShiftExpression"],
    ["RelationalExpression", token .lessEqual, "ShiftExpression"],
    ["RelationalExpression", token .greaterEqual, "ShiftExpression"],
    ["RelationalExpression", token .instanceofWord, "ReferenceType"]] ++
  define "ShiftExpression" [
    ["AdditiveExpression"], ["ShiftExpression", token .leftShift, "AdditiveExpression"],
    ["ShiftExpression", token .rightShift, "AdditiveExpression"],
    ["ShiftExpression", token .unsignedShift, "AdditiveExpression"]] ++
  define "AdditiveExpression" [
    ["MultiplicativeExpression"], ["AdditiveExpression", token .plus, "MultiplicativeExpression"],
    ["AdditiveExpression", token .minus, "MultiplicativeExpression"]] ++
  define "MultiplicativeExpression" [
    ["UnaryExpression"], ["MultiplicativeExpression", token .star, "UnaryExpression"],
    ["MultiplicativeExpression", token .slash, "UnaryExpression"],
    ["MultiplicativeExpression", token .percent, "UnaryExpression"]] ++
  define "UnaryExpression" [
    ["PreIncrementExpression"], ["PreDecrementExpression"], [token .plus, "UnaryExpression"],
    [token .minus, "UnaryExpression"], ["UnaryExpressionNotPlusMinus"]] ++
  define "PreIncrementExpression" [[token .increment, "UnaryExpression"]] ++
  define "PreDecrementExpression" [[token .decrement, "UnaryExpression"]] ++
  define "UnaryExpressionNotPlusMinus" [
    ["PostfixExpression"], [token .tilde, "UnaryExpression"], [token .bang, "UnaryExpression"],
    ["CastExpression"]] ++
  define "PostfixExpression" [
    ["Primary"], ["DottedName"], ["PostIncrementExpression"], ["PostDecrementExpression"]] ++
  define "PostIncrementExpression" [["PostfixExpression", token .increment]] ++
  define "PostDecrementExpression" [["PostfixExpression", token .decrement]] ++
  define "CastExpression" [
    [token .leftParen, "PrimitiveType", token .rightParen, "UnaryExpression"],
    [token .leftParen, "ReferenceType", many ["AdditionalBound"], token .rightParen,
      "UnaryExpressionNotPlusMinus"],
    [token .leftParen, "ReferenceType", many ["AdditionalBound"], token .rightParen,
      "LambdaExpression"]]

end JavaFrontend.Java.Grammar
