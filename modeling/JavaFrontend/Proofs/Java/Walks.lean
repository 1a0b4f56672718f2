import JavaFrontend.Proofs.Java.Children
import JavaFrontend.Proofs.Java.Nests
import JavaFrontend.Proofs.Java.Yield

/-!
What a walk over a source file visits: the trees of its outline, each before those in it
(`Outline.record_all`). Those are all trees of the file, and in the order of the source, unless the
file has something in it that a walk does not come to, or a `do` loop (`visits_of_parse`).
-/

namespace JavaFrontend.Java

variable {category : Category}

namespace Outline

/-! ### Outlines as lists -/

mutual

/-- The trees of an outline, each before those in it. -/
def trees : Outline → List Subtree
  | .node root parts => root :: treesOfAll parts

def treesOfAll : List Outline → List Subtree
  | [] => []
  | part :: rest => part.trees ++ treesOfAll rest

end

theorem treesOfAll_map (outline : Subtree → Outline) (subtrees : List Subtree) :
    treesOfAll (subtrees.map outline) = subtrees.flatMap fun subtree => (outline subtree).trees := by
  induction subtrees with
  | nil => rfl
  | cons subtree subtrees ih => rw [List.map_cons, treesOfAll, ih, List.flatMap_cons]

/-! ### Walks that go on -/

/-- Notes down a visit and goes on. -/
def note (visit : Visit) (paid : List Visit) : Step × List Visit := (.descend, visit :: paid)

theorem enterAll_note (inside : List Visit → Bool × List Visit) (visits paid : List Visit) :
    enterAll note inside visits paid = inside (visits.reverse ++ paid) := by
  induction visits generalizing paid with
  | nil => rfl
  | cons visit visits ih =>
    rw [enterAll, List.reverse_cons, List.append_assoc]
    exact ih (visit :: paid)

mutual

theorem walk_note (outline : Outline) (paid : List Visit) :
    outline.walk note paid = (false, (outline.trees.flatMap Subtree.visits).reverse ++ paid) := by
  cases outline with
  | node root parts =>
    rw [walk, enterAll_note, walkAll_note, trees, List.flatMap_cons, List.reverse_append,
      List.append_assoc]

theorem walkAll_note (parts : List Outline) (paid : List Visit) :
    walkAll note parts paid =
      (false, ((treesOfAll parts).flatMap Subtree.visits).reverse ++ paid) := by
  cases parts with
  | nil => rfl
  | cons part rest =>
    rw [walkAll, walk_note part paid]
    dsimp only
    rw [walkAll_note rest, treesOfAll, List.flatMap_append, List.reverse_append, List.append_assoc]

end

/-- A walk that skips nothing and is not ended visits all trees of the outline. -/
theorem record_all (outline : Outline) :
    outline.record (fun _ => false) none = (false, outline.trees.flatMap Subtree.visits) := by
  have walked := outline.walk_note []
  rw [List.append_nil] at walked
  unfold record
  change ((outline.walk note []).1, (outline.walk note []).2.reverse) = _
  rw [walked]
  simp

end Outline

/-! ### What a walk leaves out -/

namespace Subtree

/-- Whether a walk does not come to all in the tree that it visits elsewhere, or not in the order of
the source: to the condition of a `do` loop before its body, and not to the annotations of type
parameters nor to what is in the type parameters of methods and constructors. -/
def isIrregular : Subtree → Bool
  | ⟨.doLoop ..⟩ => true
  | ⟨.typeParameter annotations _ _⟩ => !annotations.subtrees.isEmpty
  | ⟨.method _ typeParameters ..⟩ | ⟨.constructor _ typeParameters ..⟩ =>
    typeParameters.subtrees.any fun parameter => !parameter.tree.children.isEmpty
  | _ => false

end Subtree

/-- A walk comes to nothing else. -/
theorem Tree.walked_subset (tree : Tree category) : tree.walked ⊆ tree.children := by
  cases tree with
  | doLoop body condition =>
    change [_, _] ⊆ [_, _]
    simp
  | typeParameter annotations name bounds => exact List.subset_append_right _ _
  | method modifiers typeParameters result name parameters exceptions body =>
    dsimp only [walked, children]
    intro subtree
    simp only [List.mem_append]
    tauto
  | constructor modifiers typeParameters name parameters exceptions body =>
    dsimp only [walked, children]
    intro subtree
    simp only [List.mem_append]
    tauto
  | unit package imports types =>
    dsimp only [walked, children]
    intro subtree
    simp only [List.mem_append]
    tauto
  | _ => exact List.Subset.refl _

/-- A tree that nothing is to be visited in, and that is not to be visited itself. -/
def Subtree.IsSilent (subtree : Subtree) : Prop :=
  subtree.visits = [] ∧ subtree.tree.children = []

theorem exists_of_row {subtree : Subtree} : (row : Row category) → subtree ∈ row.subtrees →
    ∃ tree : Tree category, subtree = ⟨tree⟩
  | .nil, among => absurd among List.not_mem_nil
  | .cons tree rest, among => by
    rcases List.mem_cons.mp among with rfl | later
    · exact ⟨tree, rfl⟩
    · exact exists_of_row rest later

/-- Apart from such trees a walk comes to all in a regular tree, in the order of the source. -/
theorem Tree.flatMap_walked {β : Type} {tree : Tree category} {f : Subtree → List β}
    (silent : ∀ subtree, subtree.IsSilent → f subtree = [])
    (regular : Subtree.isIrregular ⟨tree⟩ = false) :
    tree.walked.flatMap f = tree.children.flatMap f := by
  have none {subtrees : List Subtree} (all : ∀ subtree ∈ subtrees, subtree.IsSilent) :
      subtrees.flatMap f = [] :=
    List.flatMap_eq_nil_iff.mpr fun subtree member => silent subtree (all subtree member)
  have bare {parameters : Row .typeParameter}
      (regular : (parameters.subtrees.any fun parameter => !parameter.tree.children.isEmpty) =
        false) : parameters.subtrees.flatMap f = [] := by
    refine none fun subtree member => ⟨?_, ?_⟩
    · obtain ⟨tree, rfl⟩ := exists_of_row parameters member
      rfl
    · simpa using List.any_eq_false.mp regular subtree member
  cases tree with
  | doLoop body condition => cases regular
  | typeParameter annotations name bounds =>
    have empty : annotations.subtrees = [] := by
      simpa [Subtree.isIrregular] using regular
    dsimp only [walked, children]
    rw [empty, List.nil_append]
  | method modifiers typeParameters result name parameters exceptions body =>
    dsimp only [walked, children]
    simp only [List.flatMap_append, bare regular, List.append_nil]
  | constructor modifiers typeParameters name parameters exceptions body =>
    dsimp only [walked, children]
    simp only [List.flatMap_append, bare regular, List.append_nil]
  | unit package imports types =>
    have silent : imports.subtrees.flatMap f = [] := none fun subtree member => by
      obtain ⟨tree, rfl⟩ := exists_of_row imports member
      cases tree
      exact ⟨rfl, rfl⟩
    dsimp only [walked, children]
    simp only [List.flatMap_append, silent, List.append_nil]
  | _ => rfl

theorem Tree.trees_outline (tree : Tree category) : tree.outline.trees =
    ⟨tree⟩ :: tree.walked.flatMap fun subtree => subtree.outline.trees := by
  rw [outline, Outline.trees, parts_eq, Outline.treesOfAll_map]

/-- What a walk over a tree that is regular throughout visits. -/
theorem Subtree.visits_outline (subtree : Subtree)
    (regular : ∀ other ∈ subtree.preorder, other.isIrregular = false) :
    subtree.outline.trees.flatMap visits = subtree.preorder.flatMap visits := by
  induction subtree using induct with
  | step subtree ih =>
    rw [preorder_eq] at regular ⊢
    obtain ⟨here, within⟩ := List.forall_mem_cons.mp regular
    have children : ∀ child ∈ subtree.tree.children,
        child.outline.trees.flatMap visits = child.preorder.flatMap visits :=
      fun child member => ih child member fun other inside =>
        within other (List.mem_flatMap.mpr ⟨child, member, inside⟩)
    have silent (other : Subtree) (silent : other.IsSilent) : other.preorder.flatMap visits = [] := by
      simp [preorder_eq, silent.1, silent.2]
    rw [outline, Tree.trees_outline, List.flatMap_cons, List.flatMap_cons, List.flatMap_assoc,
      List.flatMap_assoc, ← Tree.flatMap_walked silent here]
    exact congrArg _ (List.flatMap_congr fun child member =>
      children child (subtree.tree.walked_subset member))

/-- What holds of a tree and of all trees in those directly in it holds of all trees in it. -/
theorem Subtree.forall_preorder {Holds : Subtree → Prop} {subtree : Subtree}
    (here : Holds subtree)
    (within : ∀ child ∈ subtree.tree.children, ∀ other ∈ child.preorder, Holds other) :
    ∀ other ∈ subtree.preorder, Holds other := by
  rw [preorder_eq]
  refine List.forall_mem_cons.mpr ⟨here, fun other member => ?_⟩
  obtain ⟨child, among, inside⟩ := List.mem_flatMap.mp member
  exact within child among other inside

/-- A walk over a parsed file without the trees that it does not do justice to visits every tree of
the file, once and before the trees in it; and of two trees of which neither is in the other the
one that stands first in the source. -/
theorem visits_of_parse {parser : Parser Node} (made : unitParser = .ok parser)
    (typeContext : Bool) (source : String) {unit : CompilationUnit}
    (parsed : ({ parser with typeContext } : Parser Node).parse (.ofString source) =
      .ok (.unit unit))
    (regular : ∀ subtree ∈ Subtree.preorder ⟨unit⟩, subtree.isIrregular = false) :
    unit.outline.record (fun _ => false) none =
        (false, (Subtree.preorder ⟨unit⟩).flatMap Subtree.visits) ∧
      (Subtree.preorder ⟨unit⟩).Pairwise fun first second => second ∈ first.preorder ∨
        Precedes first.tree.words second.tree.words
          ((Lexer.ofString source).tokens.flatMap (·.word?.toList)) := by
  constructor
  · rw [Outline.record_all]
    exact congrArg _ (Subtree.visits_outline ⟨unit⟩ regular)
  · obtain ⟨_, _, _, parses⟩ := (IsParser.unit made).parses typeContext
    have words : unit.words = _ := parses.words_eq source parsed
    exact words ▸ Subtree.pairwise_preorder ⟨unit⟩

/-- A class with two blocks and a class in each: all its trees are regular, and they are
visited. -/
theorem visits_of_twins : ∃ (parser : Parser Node) (unit : CompilationUnit),
    unitParser = .ok parser ∧
    ({ parser with typeContext := false } : Parser Node).parse (.ofString twinText) =
      .ok (.unit unit) ∧
    (∀ subtree ∈ Subtree.preorder ⟨unit⟩, subtree.isIrregular = false) ∧
    unit.outline.record (fun _ => false) none =
        (false, (Subtree.preorder ⟨unit⟩).flatMap Subtree.visits) ∧
      (Subtree.preorder ⟨unit⟩).Pairwise fun first second => second ∈ first.preorder ∨
        Precedes first.tree.words second.tree.words
          ((Lexer.ofString twinText).tokens.flatMap (·.word?.toList)) := by
  obtain ⟨parser, made⟩ := exists_unitParser
  have parsed := parse_twins made
  have regular : ∀ subtree ∈ Subtree.preorder ⟨twins.unit⟩, subtree.isIrregular = false := by
    repeat first
      | exact List.forall_mem_nil _
      | refine Subtree.forall_preorder rfl ?_
      | refine List.forall_mem_cons.mpr ⟨?_, ?_⟩
  exact ⟨parser, _, made, parsed, regular, visits_of_parse made false _ parsed regular⟩

end JavaFrontend.Java
