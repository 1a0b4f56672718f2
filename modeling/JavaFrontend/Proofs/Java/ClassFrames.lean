import JavaFrontend.Java.ClassFrames
import JavaFrontend.Proofs.Java.BinaryNames

/-!
A walk with a frame for each class that it is in names the classes as they are named one inside the
other. Whatever it has been through, every frame but the innermost one is as it was, and that one
has counted the anonymous classes directly in its class (`Outline.nameClasses_eq`). So the walk over
a source file ends outside of all classes (`nameClasses_unit`).
-/

namespace JavaFrontend.Java

variable {package : Option QualifiedName} {around : Option String} {number : Nat}
  {trees others : List ClassTree} {frames : List ClassFrame} {naming : Naming}

/-! ### Classes that are named in turn -/

namespace ClassTree

/-- How many of the classes are anonymous. -/
def anonymous (trees : List ClassTree) : Nat := trees.countP (·.header.isAnonymous)

/-- The number of the first anonymous class behind the classes. -/
def advance (around : Option String) (number : Nat) (trees : List ClassTree) : Nat :=
  if around.isSome then number + anonymous trees else number

theorem namesOfAll_append : namesOfAll package around number (trees ++ others) =
    namesOfAll package around number trees ++
      namesOfAll package around (advance around number trees) others := by
  induction trees generalizing number with
  | nil => simp [namesOfAll, advance, anonymous]
  | cons tree trees ih =>
    have further : advance around
        (if tree.header.isAnonymous && around.isSome then number + 1 else number) trees =
          advance around number (tree :: trees) := by
      unfold advance anonymous
      rw [List.countP_cons]
      cases around.isSome <;> cases tree.header.isAnonymous <;> simp
      omega
    rw [List.cons_append, namesOfAll, ih, namesOfAll, further, List.append_assoc]

theorem namesOfAll_singleton (tree : ClassTree) :
    namesOfAll package around number [tree] = tree.names package around number := by
  rw [namesOfAll, namesOfAll, List.append_nil]

theorem names_eq (header : ClassHeader) (inner : List ClassTree) :
    (node header inner).names package around number =
      header.toClassName package (binaryName around (header.id number)) ::
        namesOfAll package (some (binaryName around (header.id number))) 1 inner := by
  cases header <;> rfl

end ClassTree

open ClassTree

/-! ### Frames -/

namespace Naming

/-- The binary name of the innermost class. -/
def innermost (frames : List ClassFrame) : Option String :=
  if frames = [] then none else some (binary frames)

/-- The number that the next anonymous class gets. -/
def following : List ClassFrame → Nat
  | [] => 1
  | frame :: _ => frame.anonymous + 1

/-- The frames when some more anonymous classes have been counted. -/
def count (more : Nat) : List ClassFrame → List ClassFrame
  | [] => []
  | frame :: frames => { frame with anonymous := frame.anonymous + more } :: frames

/-- What the naming of the classes comes to if they are directly where the walk is. -/
def after (naming : Naming) (package : Option QualifiedName) (trees : List ClassTree) : Naming where
  frames := count (anonymous trees) naming.frames
  names := naming.names ++
    namesOfAll package (innermost naming.frames) (following naming.frames) trees

theorem binary_cons (frame : ClassFrame) (frames : List ClassFrame) :
    binary (frame :: frames) = binaryName (innermost frames) frame.id := by
  unfold binary innermost
  rw [List.reverse_cons, List.map_append, List.map_singleton]
  split
  · next none => simp [none, binaryName]
  · next some =>
    rw [String.intercalate_append_of_ne_nil (by simpa using some) (List.cons_ne_nil _ _)]
    simp [binaryName, binary]

@[simp] theorem binary_count (more : Nat) (frames : List ClassFrame) :
    binary (count more frames) = binary frames := by
  cases frames <;> simp [binary, count]

@[simp] theorem innermost_count (more : Nat) (frames : List ClassFrame) :
    innermost (count more frames) = innermost frames := by
  have same : count more frames = [] ↔ frames = [] := by cases frames <;> simp [count]
  rw [innermost, innermost, binary_count]
  simp only [same]

theorem count_count (first second : Nat) (frames : List ClassFrame) :
    count second (count first frames) = count (first + second) frames := by
  cases frames <;> simp [count, Nat.add_assoc]

theorem following_count (trees : List ClassTree) (frames : List ClassFrame) :
    following (count (anonymous trees) frames) =
      advance (innermost frames) (following frames) trees := by
  cases frames <;> simp [following, count, advance, innermost]
  omega

theorem after_nil (naming : Naming) : naming.after package [] = naming := by
  obtain ⟨frames, names⟩ := naming
  cases frames <;> simp [after, namesOfAll, count, anonymous]

theorem after_append (naming : Naming) : naming.after package (trees ++ others) =
    (naming.after package trees).after package others := by
  unfold after
  rw [namesOfAll_append, List.append_assoc, innermost_count, following_count, count_count,
    anonymous, List.countP_append]
  rfl

/-- A class is identified by its name, or by the number that follows. -/
theorem identify_eq (naming : Naming) (header : ClassHeader) (inner : List ClassTree) :
    naming.identify header = (header.id (following naming.frames), { naming with
      frames := count (anonymous [.node header inner]) naming.frames }) := by
  obtain ⟨frames, names⟩ := naming
  cases header with
  | named name => cases frames <;> rfl
  | anonymous position =>
    cases frames with
    | nil => exact congrArg (·, _) (by decide : "1" = toString 1)
    | cons frame frames => rfl

/-- To go into a class, name all in it and go out of it is to name the class. -/
theorem leave_after_enter (naming : Naming) (header : ClassHeader) (inner : List ClassTree) :
    ((naming.enter package header).after package inner).leave =
      naming.after package [.node header inner] := by
  rw [enter, naming.identify_eq header inner]
  unfold after leave
  rw [namesOfAll_singleton, names_eq, binary_cons, innermost_count]
  have here : innermost ({ id := header.id (following naming.frames) } ::
      count (anonymous [.node header inner]) naming.frames) =
        some (binaryName (innermost naming.frames) (header.id (following naming.frames))) := by
    rw [innermost, if_neg (List.cons_ne_nil _ _), binary_cons, innermost_count]
  refine congrArg₂ Naming.mk rfl ?_
  rw [here, List.append_assoc]
  rfl

end Naming

/-! ### The walk -/

open Naming

mutual

theorem Outline.nameClasses_eq (owner : Subtree) (outline : Outline) (naming : Naming) :
    outline.nameClasses package owner naming = naming.after package (outline.classes owner) := by
  obtain ⟨root, parts⟩ := outline
  rw [Outline.nameClasses, Outline.classes]
  split
  · exact (after_nil naming).symm
  · have within := Outline.nameClassesOfAll_eq root parts
    cases owner.classHeader? root with
    | some header => exact (congrArg leave (within _)).trans (leave_after_enter ..)
    | none => exact within naming

theorem Outline.nameClassesOfAll_eq (owner : Subtree) (parts : List Outline) (naming : Naming) :
    Outline.nameClassesOfAll package owner parts naming =
      naming.after package (Outline.classesOfAll owner parts) := by
  cases parts with
  | nil => exact (after_nil naming).symm
  | cons part rest =>
    rw [Outline.nameClassesOfAll, Outline.nameClassesOfAll_eq, Outline.nameClasses_eq,
      Outline.classesOfAll, after_append]

end

/-- The walk over a source file ends outside of all classes, and has named them. -/
theorem nameClasses_unit (unit : CompilationUnit) : CompilationUnit.nameClasses unit =
    { frames := [], names := CompilationUnit.classNames unit } := by
  rw [CompilationUnit.nameClasses, Outline.nameClassesOfAll_eq]
  exact congrArg _ (List.nil_append _)

end JavaFrontend.Java
