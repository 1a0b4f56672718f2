import JavaFrontend.Java.ClassName
import JavaFrontend.Proofs.Java.Walks

/-!
Which classes a source file has names for. Unless it has classes where a walk does not look for them,
or a `do` loop, they are all the classes in it, in the order of the source (`classes_of_parse`).
-/

namespace JavaFrontend.Java

/-! ### The classes in a tree -/

namespace Subtree

/-- All trees in the tree, each with the one that it is directly in. -/
def links (subtree : Subtree) : List (Subtree × Subtree) :=
  subtree.tree.children.attach.flatMap fun child => (subtree, child.val) :: child.val.links
termination_by sizeOf subtree.tree
decreasing_by exact Tree.sizeOf_lt_of_children child.property

theorem links_eq (subtree : Subtree) : subtree.links =
    subtree.tree.children.flatMap fun child => (subtree, child) :: child.links := by
  rw [links, List.flatMap_subtype (g := fun child => (subtree, child) :: child.links)
    (fun _ _ => rfl), List.unattach_attach]

/-- They are the trees of the preorder. -/
theorem preorder_eq_links (subtree : Subtree) :
    subtree.preorder = subtree :: subtree.links.map Prod.snd := by
  induction subtree using induct with
  | step subtree ih =>
    rw [preorder_eq, links_eq, List.map_flatMap]
    exact congrArg _ (List.flatMap_congr ih)

/-- The classes in the tree, each as it is introduced. -/
def headers (subtree : Subtree) : List ClassHeader :=
  subtree.links.filterMap fun (owner, part) => owner.classHeader? part

theorem headers_eq (subtree : Subtree) : subtree.headers =
    subtree.tree.children.flatMap fun child =>
      (subtree.classHeader? child).toList ++ child.headers := by
  rw [headers, links_eq, List.filterMap_flatMap]
  refine List.flatMap_congr fun child _ => ?_
  cases header : subtree.classHeader? child <;> simp [header, headers]

/-- There are no classes where they are not looked for. -/
def HidesNothing (subtree : Subtree) : Prop :=
  ∀ part ∈ subtree.tree.children, subtree.hidesClasses part → part.headers = []

theorem hidesNothing_of_sees {subtree : Subtree} (sees : ∀ part, subtree.hidesClasses part = false) :
    subtree.HidesNothing := fun part _ hides => by
  rw [sees part] at hides
  cases hides

end Subtree

/-! ### The classes of an outline -/

mutual

/-- The class and those in it, each as it is introduced. -/
def ClassTree.headers : ClassTree → List ClassHeader
  | .node header inner => header :: ClassTree.headersOfAll inner

def ClassTree.headersOfAll : List ClassTree → List ClassHeader
  | [] => []
  | tree :: rest => tree.headers ++ ClassTree.headersOfAll rest

end

theorem ClassTree.headersOfAll_append (trees others : List ClassTree) :
    headersOfAll (trees ++ others) = headersOfAll trees ++ headersOfAll others := by
  induction trees with
  | nil => rfl
  | cons tree trees ih => rw [List.cons_append, headersOfAll, ih, headersOfAll, List.append_assoc]

theorem headersOfAll_classesOfAll (owner : Subtree) (parts : List Subtree) :
    ClassTree.headersOfAll (Outline.classesOfAll owner (parts.map Subtree.outline)) =
      parts.flatMap fun part => ClassTree.headersOfAll (part.outline.classes owner) := by
  induction parts with
  | nil => rfl
  | cons part parts ih =>
    rw [List.map_cons, Outline.classesOfAll, ClassTree.headersOfAll_append, ih, List.flatMap_cons]

theorem headersOfAll_classes (owner part : Subtree) (seen : owner.hidesClasses part = false) :
    ClassTree.headersOfAll (part.outline.classes owner) = (owner.classHeader? part).toList ++
      ClassTree.headersOfAll (Outline.classesOfAll part part.tree.parts) := by
  unfold Subtree.outline Tree.outline
  rw [Outline.classes, if_neg (by simpa using seen)]
  cases header : owner.classHeader? part with
  | none => simp
  | some own => simp [ClassTree.headersOfAll, ClassTree.headers]

theorem headersOfAll_classes_of_hidden {owner part : Subtree} (hides : owner.hidesClasses part) :
    ClassTree.headersOfAll (part.outline.classes owner) = [] := by
  unfold Subtree.outline Tree.outline
  rw [Outline.classes, if_pos hides]
  rfl

/-- No type argument is a class. -/
theorem Subtree.classHeader?_of_hidden {owner part : Subtree} (hides : owner.hidesClasses part) :
    owner.classHeader? part = none := by
  obtain ⟨tree⟩ := part
  unfold hidesClasses at hides
  split at hides
  · obtain rfl := of_decide_eq_true hides
    cases tree <;> rfl
  · cases hides

/-- The header of a class shows that a walk visits it. -/
theorem Subtree.classHeader?_of_silent (owner : Subtree) {part : Subtree} (silent : part.IsSilent) :
    owner.classHeader? part = none := by
  obtain ⟨tree⟩ := part
  cases tree with
  | classDeclaration | interfaceDeclaration | enumDeclaration | classBody => cases silent.1
  | _ => rfl

/-- Where all is regular and no class is hidden, an outline has all classes of the tree. -/
theorem headersOfAll_parts (subtree : Subtree)
    (plain : ∀ other ∈ subtree.preorder, other.isIrregular = false ∧ other.HidesNothing) :
    ClassTree.headersOfAll (Outline.classesOfAll subtree subtree.tree.parts) = subtree.headers := by
  induction subtree using Subtree.induct with
  | step subtree ih =>
    rw [Subtree.preorder_eq] at plain
    obtain ⟨⟨regular, shown⟩, within⟩ := List.forall_mem_cons.mp plain
    have each (child : Subtree) (member : child ∈ subtree.tree.children) :
        ClassTree.headersOfAll (child.outline.classes subtree) =
          (subtree.classHeader? child).toList ++ child.headers := by
      cases hides : subtree.hidesClasses child with
      | false =>
        rw [headersOfAll_classes _ _ hides, ih child member fun other inside =>
          within other (List.mem_flatMap.mpr ⟨child, member, inside⟩)]
      | true =>
        rw [headersOfAll_classes_of_hidden hides, shown child member hides,
          Subtree.classHeader?_of_hidden hides]
        rfl
    rw [Tree.parts_eq, headersOfAll_classesOfAll, Subtree.headers_eq,
      ← Tree.flatMap_walked (fun other silent => ?_) regular]
    · exact List.flatMap_congr fun child member => each child (subtree.tree.walked_subset member)
    · rw [subtree.classHeader?_of_silent silent, Subtree.headers_eq, silent.2]
      rfl

/-! ### Names -/

/-- What a name tells of a class apart from the name itself. -/
def ClassHeader.kindAndPlace (header : ClassHeader) : Bool × Position :=
  (header.isAnonymous, header.position)

mutual

theorem ClassTree.map_names (package : Option QualifiedName) (around : Option String) (number : Nat)
    (tree : ClassTree) :
    (tree.names package around number).map (fun name => (name.isAnonymous, name.position)) =
      tree.headers.map ClassHeader.kindAndPlace := by
  cases tree with
  | node header inner =>
    exact congrArg (List.cons header.kindAndPlace) (ClassTree.map_namesOfAll _ _ _ inner)

theorem ClassTree.map_namesOfAll (package : Option QualifiedName) (around : Option String)
    (number : Nat) (trees : List ClassTree) :
    (namesOfAll package around number trees).map (fun name => (name.isAnonymous, name.position)) =
      (headersOfAll trees).map ClassHeader.kindAndPlace := by
  cases trees with
  | nil => rfl
  | cons tree trees =>
    rw [namesOfAll, headersOfAll, List.map_append, List.map_append, ClassTree.map_names,
      ClassTree.map_namesOfAll]

end

/-- In a parsed file without a `do` loop, with no class where none is looked for and nothing to
visit where a walk does not go, every class has one name, which tells its kind and its place; and
the names stand in the order of the source: of two classes of which neither is in the other, that
which stands first has its name first. -/
theorem classes_of_parse {parser : Parser Node} (made : unitParser = .ok parser)
    (typeContext : Bool) (source : String) {unit : CompilationUnit}
    (parsed : ({ parser with typeContext } : Parser Node).parse (.ofString source) =
      .ok (.unit unit))
    (plain : ∀ subtree ∈ Subtree.preorder ⟨unit⟩,
      subtree.isIrregular = false ∧ subtree.HidesNothing) :
    (CompilationUnit.classNames unit).map (fun name => (name.isAnonymous, name.position)) =
        (Subtree.headers ⟨unit⟩).map ClassHeader.kindAndPlace ∧
      (Subtree.links ⟨unit⟩).Pairwise fun first second => second.2 ∈ first.2.preorder ∨
        Precedes first.2.tree.words second.2.tree.words
          ((Lexer.ofString source).tokens.flatMap (·.word?.toList)) := by
  constructor
  · unfold CompilationUnit.classNames CompilationUnit.classes
    rw [ClassTree.map_namesOfAll]
    exact congrArg _ (headersOfAll_parts ⟨unit⟩ plain)
  · obtain ⟨_, _, _, parses⟩ := (IsParser.unit made).parses typeContext
    have words : unit.words = _ := parses.words_eq source parsed
    have ordered := Subtree.pairwise_preorder ⟨unit⟩
    rw [Subtree.preorder_eq_links, List.pairwise_cons, List.pairwise_map] at ordered
    exact words ▸ ordered.2

/-- Of a class with two blocks and a class in each, all three have their names. -/
theorem classes_of_twins : ∃ (parser : Parser Node) (unit : CompilationUnit),
    unitParser = .ok parser ∧
    ({ parser with typeContext := false } : Parser Node).parse (.ofString twinText) =
      .ok (.unit unit) ∧
    (∀ subtree ∈ Subtree.preorder ⟨unit⟩,
      subtree.isIrregular = false ∧ subtree.HidesNothing) ∧
    (CompilationUnit.classNames unit).map (fun name => (name.isAnonymous, name.position)) =
        (Subtree.headers ⟨unit⟩).map ClassHeader.kindAndPlace ∧
      (Subtree.links ⟨unit⟩).Pairwise fun first second => second.2 ∈ first.2.preorder ∨
        Precedes first.2.tree.words second.2.tree.words
          ((Lexer.ofString twinText).tokens.flatMap (·.word?.toList)) := by
  obtain ⟨parser, made⟩ := exists_unitParser
  have parsed := parse_twins made
  have plain : ∀ subtree ∈ Subtree.preorder ⟨twins.unit⟩,
      subtree.isIrregular = false ∧ subtree.HidesNothing := by
    repeat first
      | exact List.forall_mem_nil _
      | refine Subtree.forall_preorder ⟨rfl, Subtree.hidesNothing_of_sees fun _ => rfl⟩ ?_
      | refine List.forall_mem_cons.mpr ⟨?_, ?_⟩
  exact ⟨parser, _, made, parsed, plain, classes_of_parse made false _ parsed plain⟩

end JavaFrontend.Java
