import JavaFrontend.Java.Outline

/-!
The names of the classes in a source file. A class is known by the name of the class around it, a
dollar sign and its own name. A class without a name of its own has a number instead: the anonymous
classes directly in one class are numbered from one.
-/

namespace JavaFrontend.Java

/-- How a class is introduced: by a declaration with a name, or by a body alone. -/
inductive ClassHeader where
  | named (name : Identifier)
  | anonymous (position : Position)
deriving DecidableEq, Repr

namespace ClassHeader

def position : ClassHeader → Position
  | .named name => name.position
  | .anonymous position => position

def isAnonymous : ClassHeader → Bool
  | .named _ => false
  | .anonymous _ => true

end ClassHeader

/-- A class and the classes directly in it. -/
inductive ClassTree where
  | node (header : ClassHeader) (inner : List ClassTree)

def ClassTree.header : ClassTree → ClassHeader
  | .node header _ => header

/-! ### The classes of a tree -/

namespace Subtree

/-- The class that a tree introduces as a part of `owner`: a declaration does so always, a body if
it belongs to the creation of an object or to an enumeration constant. -/
def classHeader? (owner : Subtree) : Subtree → Option ClassHeader
  | ⟨.classDeclaration _ name _ _ _ _⟩ => some (.named name)
  | ⟨.interfaceDeclaration _ name _ _ _⟩ => some (.named name)
  | ⟨.enumDeclaration _ name _ _ _⟩ => some (.named name)
  | ⟨.classBody _ position⟩ =>
    match owner.category with
    | .expr | .enumConstant => some (.anonymous position)
    | _ => none
  | _ => none

/-- Whether classes are not looked for in a part of `owner`: those in type arguments in front of
the type of a new object do not count. -/
def hidesClasses (owner part : Subtree) : Bool :=
  match owner with
  | ⟨.creation ..⟩ => part.category = .typeArgument
  | _ => false

end Subtree

mutual

/-- The outermost classes in a part of `owner`. -/
def Outline.classes (owner : Subtree) : Outline → List ClassTree
  | .node root parts =>
    if owner.hidesClasses root then []
    else
      let inner := Outline.classesOfAll root parts
      match owner.classHeader? root with
      | some header => [.node header inner]
      | none => inner

def Outline.classesOfAll (owner : Subtree) : List Outline → List ClassTree
  | [] => []
  | part :: rest => part.classes owner ++ Outline.classesOfAll owner rest

end

/-- The outermost classes in a source file. -/
def CompilationUnit.classes (unit : CompilationUnit) : List ClassTree :=
  Outline.classesOfAll ⟨unit⟩ unit.parts

/-! ### Names -/

/-- A class by its name. -/
structure ClassName where
  /-- The names of the classes around it and its own, with dollar signs between them. -/
  binaryName : String
  /-- The binary name with that of the package in front. -/
  qualifiedName : String
  isAnonymous : Bool
  /-- Where the name is, or the body of an anonymous class. -/
  position : Position
deriving DecidableEq, Repr

/-- The binary name of a class with the name or number `own`. -/
def binaryName (around : Option String) (own : String) : String :=
  match around with
  | none => own
  | some outer => outer ++ "$" ++ own

/-- The name of the class in the package. -/
def ClassHeader.toClassName (header : ClassHeader) (package : Option QualifiedName)
    (binaryName : String) : ClassName :=
  { binaryName
    qualifiedName := match package with
      | none => binaryName
      | some package => package.display ++ "." ++ binaryName
    isAnonymous := header.isAnonymous
    position := header.position }

mutual

/-- The name of the class and those of all classes in it, if `number` is what it gets for being
anonymous. -/
def ClassTree.names (package : Option QualifiedName) (around : Option String) (number : Nat) :
    ClassTree → List ClassName
  | .node header inner =>
    let own := match header with
      | .named name => name.name
      | .anonymous _ => toString number
    let binary := binaryName around own
    header.toClassName package binary :: ClassTree.namesOfAll package (some binary) 1 inner

/-- The names of classes that are in the same class, if the first anonymous one gets the number.
Outside of all classes there is no counting. -/
def ClassTree.namesOfAll (package : Option QualifiedName) (around : Option String)
    (number : Nat) : List ClassTree → List ClassName
  | [] => []
  | tree :: rest =>
    let next := if tree.header.isAnonymous && around.isSome then number + 1 else number
    tree.names package around number ++ ClassTree.namesOfAll package around next rest

end

/-- The name of the package, if the source file has one. -/
def CompilationUnit.package? : CompilationUnit → Option QualifiedName
  | .unit (.present (.packageDeclaration _ name)) _ _ => some name
  | .unit .absent _ _ => none

/-- The names of all classes in a source file, each before those of the classes in it. -/
def CompilationUnit.classNames (unit : CompilationUnit) : List ClassName :=
  ClassTree.namesOfAll (CompilationUnit.package? unit) none 1 (CompilationUnit.classes unit)

end JavaFrontend.Java
