import JavaFrontend.Java.Grammar.Writing

/-!
Classes, enumerations and interfaces with their members, and array initializers.
-/

namespace JavaFrontend.Java.Grammar

/-- The rules of declarations. -/
def declarations : List Alternative :=
  define "ClassDeclaration" [["NormalClassDeclaration"], ["EnumDeclaration"]] ++
  define "NormalClassDeclaration" [
    [many ["Modifier"], token .classWord, token .identifier, maybe ["TypeParameters"],
      maybe ["Superclass"], maybe ["Superinterfaces"], "ClassBody"]] ++
  define "Modifier" [
    ["Annotation"], [token .publicWord], [token .protectedWord], [token .privateWord],
    [token .abstractWord], [token .staticWord], [token .finalWord], [token .strictfpWord],
    [token .transientWord], [token .volatileWord], [token .synchronizedWord], [token .nativeWord],
    [token .defaultWord]] ++
  define "Superclass" [[token .extendsWord, "ClassType"]] ++
  define "Superinterfaces" [
    [token .implementsWord, "ClassType", many [token .comma, "ClassType"]]] ++
  define "ClassBody" [[token .leftBrace, many ["ClassBodyDeclaration"], token .rightBrace]] ++
  define "ClassBodyDeclaration" [
    ["ClassMemberDeclaration"], ["InstanceInitializer"], ["StaticInitializer"],
    ["ConstructorDeclaration"]] ++
  define "ClassMemberDeclaration" [
    ["FieldDeclaration"], ["MethodDeclaration"], ["ClassDeclaration"], ["InterfaceDeclaration"],
    [token .semicolon]] ++
  define "InstanceInitializer" [["Block"]] ++
  define "StaticInitializer" [[token .staticWord, "Block"]] ++
  define "FieldDeclaration" [
    [many ["Modifier"], "Type", "VariableDeclaratorList", token .semicolon]] ++
  define "VariableDeclaratorList" [
    ["VariableDeclarator", many [token .comma, "VariableDeclarator"]]] ++
  define "VariableDeclarator" [
    ["VariableDeclaratorId"], ["VariableDeclaratorId", token .assign, "VariableInitializer"]] ++
  define "VariableDeclaratorId" [[token .identifier, maybe ["Dims"]]] ++
  define "VariableInitializer" [["Expression"], ["ArrayInitializer"]] ++
  define "MethodDeclaration" [
    [many ["Modifier"], maybe ["TypeParameters"], "Result", token .identifier, token .leftParen,
      maybe ["FormalParameterList"], token .rightParen, maybe ["Dims"], maybe ["Throws"],
      "MethodBody"]] ++
  define "Result" [["Type"], [token .voidWord]] ++
  define "FormalParameterList" [["FormalParameter", many [token .comma, "FormalParameter"]]] ++
  define "FormalParameter" [
    [many ["VariableModifier"], "Type", "VariableDeclaratorId"],
    [many ["VariableModifier"], "Type", token .ellipsis, token .identifier]] ++
  define "VariableModifier" [["Annotation"], [token .finalWord]] ++
  define "Throws" [[token .throwsWord, "ClassType", many [token .comma, "ClassType"]]] ++
  define "MethodBody" [["Block"], [token .semicolon]] ++
  define "ConstructorDeclaration" [
    [many ["Modifier"], maybe ["TypeParameters"], token .identifier, token .leftParen,
      maybe ["FormalParameterList"], token .rightParen, maybe ["Throws"], "ConstructorBody"]] ++
  define "ConstructorBody" [
    [token .leftBrace, maybe ["ExplicitConstructorInvocation"], many ["BlockStatement"],
      token .rightBrace]] ++
  define "ExplicitConstructorInvocation" [
    [maybe ["TypeArguments"], token .thisWord, "Arguments", token .semicolon],
    [maybe ["TypeArguments"], token .superWord, "Arguments", token .semicolon],
    ["DottedName", token .dot, maybe ["TypeArguments"], token .superWord, "Arguments",
      token .semicolon],
    ["Primary", token .dot, maybe ["TypeArguments"], token .superWord, "Arguments",
      token .semicolon]] ++
  define "EnumDeclaration" [
    [many ["Modifier"], token .enumWord, token .identifier, maybe ["Superinterfaces"],
      "EnumBody"]] ++
  define "EnumBody" [
    [token .leftBrace, maybe ["EnumConstant", many [token .comma, "EnumConstant"]],
      maybe [token .comma], maybe ["EnumBodyDeclarations"], token .rightBrace]] ++
  define "EnumConstant" [
    [many ["Annotation"], token .identifier, maybe ["Arguments"], maybe ["ClassBody"]]] ++
  define "EnumBodyDeclarations" [[token .semicolon, many ["ClassBodyDeclaration"]]] ++
  define "InterfaceDeclaration" [
    [many ["Modifier"], token .interfaceWord, token .identifier, maybe ["TypeParameters"],
      maybe ["ExtendsInterfaces"], "ClassBody"]] ++
  define "ExtendsInterfaces" [
    [token .extendsWord, "ClassType", many [token .comma, "ClassType"]]] ++
  define "ArrayInitializer" [
    [token .leftBrace, maybe ["VariableInitializer", many [token .comma, "VariableInitializer"]],
      maybe [token .comma], token .rightBrace]]

end JavaFrontend.Java.Grammar
