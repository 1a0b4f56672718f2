import JavaFrontend.Java.Grammar.Writing

/-!
Compilation units: a package, imports and type declarations.
-/

namespace JavaFrontend.Java.Grammar

/-- The rules of compilation units. -/
def units : List Alternative :=
  define "CompilationUnit" [
    ["PackageDeclaration", many ["ImportDeclaration"], many ["TypeDeclaration"]],
    ["ImportDeclaration", many ["ImportDeclaration"], many ["TypeDeclaration"]],
    ["TypeDeclaration", many ["TypeDeclaration"]]] ++
  define "PackageDeclaration" [
    [many ["Annotation"], token .packageWord, "DottedName", token .semicolon]] ++
  define "ImportDeclaration" [
    [token .importWord, "DottedName", token .semicolon],
    [token .importWord, "DottedName", token .dot, token .star, token .semicolon],
    [token .importWord, token .staticWord, "DottedName", token .semicolon],
    [token .importWord, token .staticWord, "DottedName", token .dot, token .star,
      token .semicolon]] ++
  define "TypeDeclaration" [["ClassDeclaration"], ["InterfaceDeclaration"], [token .semicolon]]

end JavaFrontend.Java.Grammar
