import JavaFrontend.Java.Grammar.Writing

/-!
Names, types and annotations.
-/

namespace JavaFrontend.Java.Grammar

/-- The rules of names, types and annotations. -/
def types : List Alternative :=
  define "DottedName" [[token .identifier, many [token .dot, token .identifier]]] ++
  define "Type" [["PrimitiveType"], ["ClassType"], ["ArrayType"]] ++
  define "PrimitiveType" [
    [token .byteWord], [token .shortWord], [token .charWord], [token .intWord], [token .longWord],
    [token .floatWord], [token .doubleWord], [token .booleanWord],
    ["Annotation", many ["Annotation"], "PrimitiveType"]] ++
  define "ReferenceType" [["ClassType"], ["ArrayType"]] ++
  define "ClassType" [["SimpleClassType", many [token .dot, "SimpleClassType"]]] ++
  define "SimpleClassType" [[many ["Annotation"], token .identifier, maybe ["TypeArguments"]]] ++
  define "ArrayType" [["PrimitiveType", "Dims"], ["ClassType", "Dims"]] ++
  define "Dims" [
    [token .leftBracket, token .rightBracket], ["Dims", token .leftBracket, token .rightBracket]] ++
  define "TypeArguments" [
    [token .less, "TypeArgument", many [token .comma, "TypeArgument"], token .greater]] ++
  define "TypeArgument" [["ReferenceType"], ["Wildcard"]] ++
  define "Wildcard" [
    [token .question], [token .question, token .extendsWord, "ReferenceType"],
    [token .question, token .superWord, "ReferenceType"]] ++
  define "TypeParameters" [
    [token .less, "TypeParameter", many [token .comma, "TypeParameter"], token .greater]] ++
  define "TypeParameter" [
    [many ["Annotation"], token .identifier,
      maybe [token .extendsWord, "ClassType", many ["AdditionalBound"]]]] ++
  define "AdditionalBound" [[token .ampersand, "ClassType"]] ++
  define "Annotation" [
    [token .at, "DottedName"], [token .at, "DottedName", token .leftParen, token .rightParen],
    [token .at, "DottedName", token .leftParen, "ElementValuePair",
      many [token .comma, "ElementValuePair"], token .rightParen],
    [token .at, "DottedName", token .leftParen, "ElementValue", token .rightParen]] ++
  define "ElementValuePair" [[token .identifier, token .assign, "ElementValue"]] ++
  define "ElementValue" [
    ["ConditionalExpression"], ["ElementValueArrayInitializer"], ["Annotation"]] ++
  define "ElementValueArrayInitializer" [
    [token .leftBrace, maybe ["ElementValue", many [token .comma, "ElementValue"]],
      maybe [token .comma], token .rightBrace]]

end JavaFrontend.Java.Grammar
