import JavaFrontend.Java.ClassName

/-!
The names of the classes in a source file by one walk over it. The walk keeps a frame for each class
that it is in, with a counter for the anonymous classes directly in that class.
-/

namespace JavaFrontend.Java

/-- A class that a walk is in. -/
structure ClassFrame where
  /-- The name of the class, or its number. -/
  id : String
  /-- How many anonymous classes directly in it the walk has come to. -/
  anonymous : Nat := 0
deriving DecidableEq, Repr

/-- Where a walk is, and what it has named. -/
structure Naming where
  /-- The classes that the walk is in, the innermost first. -/
  frames : List ClassFrame := []
  names : List ClassName := []
deriving DecidableEq, Repr

namespace Naming

/-- The binary name of the class with the frame in front, from the outermost class on. -/
def binary (frames : List ClassFrame) : String :=
  "$".intercalate (frames.reverse.map (·.id))

/-- Takes the next number of the innermost class. Outside of all classes there is no counting. -/
def nextNumber (naming : Naming) : String × Naming :=
  match naming.frames with
  | [] => ("1", naming)
  | frame :: frames =>
    let number := frame.anonymous + 1
    (toString number, { naming with frames := { frame with anonymous := number } :: frames })

/-- The name of the class, or else its number. -/
def identify (naming : Naming) : ClassHeader → String × Naming
  | .named name => (name.name, naming)
  | .anonymous _ => naming.nextNumber

/-- Goes into the class and names it. -/
def enter (naming : Naming) (package : Option QualifiedName) (header : ClassHeader) : Naming :=
  let identified := naming.identify header
  let frames := { id := identified.1 } :: identified.2.frames
  { frames
    names := identified.2.names ++ [header.toClassName package (binary frames)] }

/-- Goes out of the innermost class. -/
def leave (naming : Naming) : Naming := { naming with frames := naming.frames.tail }

end Naming

mutual

/-- Walks over a part of `owner`. -/
def Outline.nameClasses (package : Option QualifiedName) (owner : Subtree) :
    Outline → Naming → Naming
  | .node root parts, naming =>
    if owner.hidesClasses root then naming
    else
      match owner.classHeader? root with
      | some header =>
        (Outline.nameClassesOfAll package root parts (naming.enter package header)).leave
      | none => Outline.nameClassesOfAll package root parts naming

def Outline.nameClassesOfAll (package : Option QualifiedName) (owner : Subtree) :
    List Outline → Naming → Naming
  | [], naming => naming
  | part :: rest, naming =>
    Outline.nameClassesOfAll package owner rest (part.nameClasses package owner naming)

end

/-- The walk over a source file. -/
def CompilationUnit.nameClasses (unit : CompilationUnit) : Naming :=
  Outline.nameClassesOfAll (CompilationUnit.package? unit) ⟨unit⟩ unit.parts {}

end JavaFrontend.Java
