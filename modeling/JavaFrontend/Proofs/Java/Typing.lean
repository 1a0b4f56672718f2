import JavaFrontend.Java.Parser
import JavaFrontend.Proofs.Grammar.Expansion
import JavaFrontend.Proofs.Java.Coverage
import JavaFrontend.Proofs.Reduction.GenericTree

/-!
The reductions agree with the expanded rules of the Java grammar. Whatever the parts of a rule were
made into, as long as each is of the shape of its name, the rule is made into something of the
shape of its own name, and all words of the parts are in it in order.
-/

namespace JavaFrontend.Java.Reduction

open OperandM Piece

variable {repetitions : Repetitions} {elements : List Element} {production : Production}
  {nodes : List Node} {node : Node} {name : String} {shape : Shape} {body : List Element}

/-! ### Nodes for the parts of rules -/

/-- The node is of the shape of the name: that of its collection, or a list of what the body of its
repetition adds. -/
structure Fits (repetitions : Repetitions) (name : String) (node : Node) : Prop where
  collection : ∀ shape, shapeOf name = some shape → shape.Holds node
  repetition : ∀ body, (body, name) ∈ repetitions →
    (Shape.listOf (itemSortsOf (rowOf body))).Holds node

/-- The node is one for the part. -/
def PartFits (repetitions : Repetitions) : Part → Node → Prop
  | .token kind, node => (NodeSort.ofKind kind).Holds node
  | .rule name, node => Fits repetitions name node

private theorem split_forall₂ {front back : Production}
    (fit : List.Forall₂ (PartFits repetitions) (front ++ back) nodes) :
    ∃ head tail, nodes = head ++ tail ∧ List.Forall₂ (PartFits repetitions) front head ∧
      List.Forall₂ (PartFits repetitions) back tail := by
  induction front generalizing nodes with
  | nil => exact ⟨[], nodes, rfl, .nil, fit⟩
  | cons part front ih =>
    obtain ⟨node, nodes, holds, rest, rfl⟩ := List.forall₂_cons_left_iff.mp fit
    obtain ⟨head, tail, rfl, first, second⟩ := ih rest
    exact ⟨node :: head, tail, rfl, .cons holds first, second⟩

/-- Nodes for a sequence that elements stand for match the row of the elements. -/
theorem matches_of_spells (known : ∀ name ∈ Element.bodyNames elements, (shapeOf name).isSome)
    (spelled : Spells repetitions elements production)
    (fit : List.Forall₂ (PartFits repetitions) production nodes) :
    Matches (rowOf elements) nodes := by
  induction spelled generalizing nodes with
  | nil =>
    cases fit
    exact .nil
  | token kind _ ih =>
    obtain ⟨node, nodes, holds, rest, rfl⟩ := List.forall₂_cons_left_iff.mp fit
    refine .part (Shape.holds_of.mpr ⟨_, List.mem_singleton_self _, holds⟩) (ih ?_ rest)
    simpa [Element.bodyNames, Element.names] using known
  | rule name _ ih =>
    obtain ⟨node, nodes, holds, rest, rfl⟩ := List.forall₂_cons_left_iff.mp fit
    simp only [Element.bodyNames, Element.names, List.singleton_append, List.forall_mem_cons]
      at known
    obtain ⟨shape, found⟩ := Option.isSome_iff_exists.mp known.1
    refine .part ?_ (ih known.2 rest)
    simpa [found] using holds.collection shape found
  | skip _ _ ih =>
    simp only [Element.bodyNames, List.forall_mem_append] at known
    exact .skip (ih known.2 fit)
  | take _ _ bodyIh restIh =>
    obtain ⟨front, rest, rfl, inside, later⟩ := split_forall₂ fit
    simp only [Element.bodyNames, Element.names, List.forall_mem_append] at known
    exact .take (bodyIh known.1 inside) (restIh known.2 later)
  | never _ _ ih =>
    simp only [Element.bodyNames, List.forall_mem_append] at known
    exact .skip (ih known.2 fit)
  | some named _ ih =>
    obtain ⟨node, nodes, holds, rest, rfl⟩ := List.forall₂_cons_left_iff.mp fit
    simp only [Element.bodyNames, List.forall_mem_append] at known
    exact .take (.part (holds.repetition _ named) .nil) (ih known.2 rest)

/-! ### Rules for single names -/

theorem all_isOptional (spelled : Spells repetitions elements []) :
    elements.all isOptional := by
  generalize empty : ([] : Production) = production at spelled
  induction spelled with
  | nil => rfl
  | token | rule | some => cases empty
  | skip _ _ ih => simpa [isOptional] using ih empty
  | take _ _ _ ih => simpa [isOptional] using ih (List.append_eq_nil_iff.mp empty.symm).2.symm
  | never _ _ ih => simpa [isOptional] using ih empty

/-- What a rule for a single name passes through is of the shape that was checked. -/
theorem holds_of_rowPasses (known : ∀ name ∈ Element.bodyNames elements, (shapeOf name).isSome)
    (passes : rowPasses shape elements) (spelled : Spells repetitions elements [.rule name])
    (fit : Fits repetitions name node) : shape.Holds node := by
  generalize single : [Part.rule name] = production at spelled
  induction spelled with
  | nil | token => cases single
  | rule target rest =>
    cases single
    simp only [rowPasses, all_isOptional rest, Bool.not_true, Bool.false_or, Bool.and_eq_true]
      at passes
    obtain ⟨own, found⟩ := Option.isSome_iff_exists.mp (known name (by
      simp [Element.bodyNames, Element.names]))
    refine (fit.collection own found).within ?_
    simpa [Reduction.passes, found] using passes.1
  | skip _ _ ih =>
    simp only [rowPasses, isOptional, Bool.not_true, Bool.false_or, Bool.and_eq_true] at passes
    simp only [Element.bodyNames, List.forall_mem_append] at known
    exact ih known.2 passes.2 single
  | take inner rest bodyIh restIh =>
    simp only [rowPasses, isOptional, Bool.not_true, Bool.false_or, Bool.and_eq_true] at passes
    simp only [Element.bodyNames, Element.names, List.forall_mem_append] at known
    rcases List.append_eq_singleton_iff.mp single.symm with ⟨rfl, rfl⟩ | ⟨rfl, rfl⟩
    · exact restIh known.2 passes.2 rfl
    · refine bodyIh known.1 ?_ rfl
      simpa [all_isOptional rest, Reduction.passes] using passes.1
  | never _ _ ih =>
    simp only [rowPasses, isOptional, Bool.not_true, Bool.false_or, Bool.and_eq_true] at passes
    simp only [Element.bodyNames, List.forall_mem_append] at known
    exact ih known.2 passes.2 single
  | some named rest =>
    cases single
    simp only [rowPasses, all_isOptional rest, Bool.not_true, Bool.false_or, Bool.and_eq_true]
      at passes
    exact (fit.repetition _ named).within (by simpa [Reduction.passes] using passes.1)

/-! ### Repetitions -/

/-- A part of a row has a node. -/
theorem exists_of_part {row : List Piece} (matched : Matches row nodes)
    (member : .part shape ∈ row) : ∃ node ∈ nodes, shape.Holds node := by
  induction matched with
  | nil => cases member
  | part holds _ ih =>
    rcases List.mem_cons.mp member with same | later
    · cases same
      exact ⟨_, List.mem_cons_self, holds⟩
    · obtain ⟨node, present, holds⟩ := ih later
      exact ⟨node, List.mem_cons_of_mem _ present, holds⟩
  | skip _ ih =>
    rcases List.mem_cons.mp member with same | later
    · cases same
    · exact ih later
  | take _ _ _ ih =>
    rcases List.mem_cons.mp member with same | later
    · cases same
    · obtain ⟨node, present, holds⟩ := ih later
      exact ⟨node, List.mem_append_right _ present, holds⟩

theorem mem_rowOf {element : Element} (member : element ∈ elements) :
    pieceOf element ∈ rowOf elements := by
  induction elements with
  | nil => cases member
  | cons first elements ih =>
    rcases List.mem_cons.mp member with rfl | later
    · exact List.mem_cons_self
    · exact List.mem_cons_of_mem _ (ih later)

/-- A node of a shape without lists is of one of its sorts. -/
theorem sort_of_flat (flat : shape.items = []) (holds : shape.Holds node) :
    ∃ sort ∈ shape.sorts, sort.Holds node := by
  cases holds with
  | single among holds => exact ⟨_, among, holds⟩
  | list rule some all =>
    obtain ⟨item, items, rfl⟩ := List.exists_cons_of_ne_nil some
    obtain ⟨sort, none, -⟩ := all item List.mem_cons_self
    rw [flat] at none
    cases none

theorem mem_shapesOf {row : List Piece} (member : .part shape ∈ row) : shape ∈ shapesOf row := by
  induction row with
  | nil => cases member
  | cons piece row ih =>
    rcases List.mem_cons.mp member with rfl | later
    · simp [shapesOf, Piece.shapes]
    · simp [shapesOf, ih later]

/-- The names in a plain body have shapes, and nothing there is made into a list. -/
theorem known_of_plainBody (plain : plainBody body) :
    (∀ name ∈ Element.bodyNames body, (shapeOf name).isSome) ∧
      ∀ shape ∈ shapesOf (rowOf body), shape.items = [] := by
  have simple := (Bool.and_eq_true _ _ ▸ plain).1
  clear plain
  induction body with
  | nil => exact ⟨by simp [Element.bodyNames], by simp [rowOf, shapesOf]⟩
  | cons element body ih =>
    obtain ⟨here, later⟩ := Bool.and_eq_true _ _ ▸ List.all_cons .. ▸ simple
    obtain ⟨names, shapes⟩ := ih later
    cases element with
    | token kind =>
      refine ⟨by simpa [Element.bodyNames, Element.names] using names, ?_⟩
      simpa [rowOf, pieceOf, shapesOf, Piece.shapes, Shape.of] using shapes
    | rule target =>
      obtain ⟨shape, found, flat⟩ := (Option.any_eq_true _ _).mp here
      refine ⟨?_, ?_⟩
      · simpa [Element.bodyNames, Element.names, found] using names
      · simpa [rowOf, pieceOf, shapesOf, Piece.shapes, found, List.isEmpty_iff.mp flat] using shapes
    | optional | repeated => cases here

/-- What a plain body adds to a list are its nodes other than tokens, of which there are some. -/
theorem bodyItems_of_matches (plain : plainBody body) (matched : Matches (rowOf body) nodes) :
    TreeBuilder.bodyItems false nodes ≠ [] ∧
      (∀ item ∈ TreeBuilder.bodyItems false nodes,
        ∃ sort ∈ itemSortsOf (rowOf body), sort.Holds item) ∧
      words (TreeBuilder.bodyItems false nodes) = words nodes := by
  obtain ⟨-, flat⟩ := known_of_plainBody plain
  have single (node : Node) (present : node ∈ nodes) : node.items = [node] := by
    obtain ⟨shape, among, holds⟩ := matched.shape node present
    obtain ⟨sort, -, holds⟩ := sort_of_flat (flat shape among) holds
    exact holds.items
  obtain ⟨node, present, solid⟩ : ∃ node ∈ nodes, node.isToken = false := by
    obtain ⟨element, member, words⟩ := List.any_eq_true.mp (Bool.and_eq_true _ _ ▸ plain).2
    split at words
    · next shape piece =>
      have inside := piece ▸ mem_rowOf member
      obtain ⟨node, present, holds⟩ := exists_of_part matched inside
      obtain ⟨sort, among, holds⟩ := sort_of_flat (flat shape (mem_shapesOf inside)) holds
      exact ⟨node, present, by simpa [holds.isToken] using List.all_eq_true.mp words sort among⟩
    · cases words
  have items : TreeBuilder.bodyItems false nodes = itemsOf nodes := by
    have some : nodes.all Node.isToken = false := by
      rw [List.all_eq_false]
      exact ⟨node, present, by simp [solid]⟩
    rw [TreeBuilder.bodyItems, some, itemsOf]
    simp only [Bool.false_eq_true, if_false]
    refine (List.flatMap_singleton' _).symm.trans (List.flatMap_congr fun node member => ?_)
    exact (single node (List.mem_of_mem_filter member)).symm
  rw [items]
  refine ⟨List.ne_nil_of_mem (a := node) ?_, matched.items, words_itemsOf nodes⟩
  rw [itemsOf, List.mem_flatMap]
  exact ⟨node, List.mem_filter.mpr ⟨present, by simp [solid]⟩, by simp [single node present]⟩

theorem bodyItems_of_plainBody (plain : plainBody body)
    (spelled : Spells repetitions body production)
    (fit : List.Forall₂ (PartFits repetitions) production nodes) :
    TreeBuilder.bodyItems false nodes ≠ [] ∧
      (∀ item ∈ TreeBuilder.bodyItems false nodes,
        ∃ sort ∈ itemSortsOf (rowOf body), sort.Holds item) ∧
      words (TreeBuilder.bodyItems false nodes) = words nodes :=
  bodyItems_of_matches plain (matches_of_spells (known_of_plainBody plain).1 spelled fit)

/-- The names in a sequence for a plain body have shapes. -/
theorem known_of_plain_spelled (plain : plainBody body)
    (spelled : Spells repetitions body production) (member : .rule name ∈ production) :
    (shapeOf name).isSome := by
  have simple := (Bool.and_eq_true _ _ ▸ plain).1
  clear plain
  induction spelled with
  | nil => cases member
  | token kind _ ih =>
    rcases List.mem_cons.mp member with same | later
    · cases same
    · exact ih later (Bool.and_eq_true _ _ ▸ List.all_cons .. ▸ simple).2
  | rule target _ ih =>
    obtain ⟨here, rest⟩ := Bool.and_eq_true _ _ ▸ List.all_cons .. ▸ simple
    rcases List.mem_cons.mp member with same | later
    · cases same
      obtain ⟨shape, found, -⟩ := (Option.any_eq_true _ _).mp here
      simp [found]
    · exact ih later rest
  | skip | take | never | some => cases (Bool.and_eq_true _ _ ▸ List.all_cons .. ▸ simple).1

/-- A repetition begins with what its body adds. -/
theorem repeatedNode_once (plain : plainBody body) (repetition : TreeBuilder.isRepetition name)
    (spelled : Spells repetitions body production)
    (fit : List.Forall₂ (PartFits repetitions) production nodes) :
    ∃ node, TreeBuilder.repeatedNode false ⟨name, production⟩ nodes = .ok node ∧
      (Shape.listOf (itemSortsOf (rowOf body))).Holds node ∧ node.words = words nodes := by
  obtain ⟨some, all, same⟩ := bodyItems_of_plainBody plain spelled fit
  have first : (⟨name, production⟩ : Rule).isLeftRecursive = false := by
    refine Bool.eq_false_iff.mpr fun recursive => ?_
    obtain ⟨part, parts, begins⟩ := DerivationTree.parts_of_isLeftRecursive recursive
    have known : (shapeOf name).isSome := known_of_plain_spelled plain spelled (by
      rw [show production = _ from begins]
      exact List.mem_cons_self)
    rw [shapeOf_of_isRepetition repetition] at known
    cases known
  refine ⟨.list name (TreeBuilder.bodyItems false nodes), ?_, ?_, ?_⟩
  · unfold TreeBuilder.repeatedNode
    rw [first]
    rfl
  · exact Shape.holds_listOf.mpr ⟨_, _, rfl, some, all⟩
  · simpa using same

/-- It goes on with what its body adds. -/
theorem repeatedNode_again (plain : plainBody body) (named : (body, name) ∈ repetitions)
    (spelled : Spells repetitions body production)
    (fit : List.Forall₂ (PartFits repetitions) (.rule name :: production) nodes) :
    ∃ node, TreeBuilder.repeatedNode false ⟨name, .rule name :: production⟩ nodes = .ok node ∧
      (Shape.listOf (itemSortsOf (rowOf body))).Holds node ∧ node.words = words nodes := by
  obtain ⟨list, nodes, holds, rest, rfl⟩ := List.forall₂_cons_left_iff.mp fit
  obtain ⟨some, all, same⟩ := bodyItems_of_plainBody plain spelled rest
  obtain ⟨element, items, rfl, -, already⟩ := Shape.holds_listOf.mp (holds.repetition body named)
  have further : (⟨name, .rule name :: production⟩ : Rule).isLeftRecursive = true := by
    cases production with
    | nil =>
      cases rest
      exact absurd rfl some
    | cons part parts => simp [Rule.isLeftRecursive]
  refine ⟨.list element (items ++ TreeBuilder.bodyItems false nodes), ?_, ?_, ?_⟩
  · unfold TreeBuilder.repeatedNode
    rw [further]
    rfl
  · refine Shape.holds_listOf.mpr ⟨_, _, rfl, by simp [some], fun item member => ?_⟩
    rcases List.mem_append.mp member with old | new
    · exact already item old
    · exact all item new
  · simp [same]

/-- Nothing is repeated within a plain body. -/
private theorem rowBodies_of_plainBody (plain : plainBody body) : Element.rowBodies body = [] := by
  have simple := (Bool.and_eq_true _ _ ▸ plain).1
  clear plain
  induction body with
  | nil => rfl
  | cons element body ih =>
    obtain ⟨here, later⟩ := Bool.and_eq_true _ _ ▸ List.all_cons .. ▸ simple
    cases element with
    | token | rule => simpa [Element.rowBodies, Element.bodies] using ih later
    | optional | repeated => cases here

mutual

private theorem plain_of_plainRepetitions : (element : Element) → plainRepetitions element →
    ∀ body ∈ element.bodies, plainBody body
  | .token _, _ => by simp [Element.bodies]
  | .rule _, _ => by simp [Element.bodies]
  | .optional body, plain => plain_of_rowPlainRepetitions body plain
  | .repeated body, plain => by
    rw [Element.bodies, rowBodies_of_plainBody plain]
    simpa using show plainBody body from plain

theorem plain_of_rowPlainRepetitions : (elements : List Element) → rowPlainRepetitions elements →
    ∀ body ∈ Element.rowBodies elements, plainBody body
  | [], _ => by simp [Element.rowBodies]
  | element :: elements, plain => by
    obtain ⟨here, later⟩ := Bool.and_eq_true _ _ ▸ plain
    exact List.forall_mem_append.mpr
      ⟨plain_of_plainRepetitions element here, plain_of_rowPlainRepetitions elements later⟩

end

/-! ### What becomes of a rule -/

section Reduce

variable {grammar : JavaFrontend.Grammar} {id : Nat} {rule : Rule}

private theorem reductions_builder (found : grammar.rule? id = some rule) :
    (builder grammar).reductions[id]? =
      some (rule, TreeBuilder.reductionOf (constructor? grammar) rule) := by
  rw [builder, TreeBuilder.ofGrammar, Array.getElem?_map]
  exact congrArg (Option.map _) found

theorem reduce_repetition (found : grammar.rule? id = some rule)
    (repetition : TreeBuilder.isRepetition rule.name) :
    (builder grammar).reduce id nodes = TreeBuilder.repeatedNode false rule nodes := by
  unfold TreeBuilder.reduce
  rw [reductions_builder found, TreeBuilder.reductionOf, if_pos repetition]
  rfl

theorem reduce_single (found : grammar.rule? id = some rule)
    (other : ¬ TreeBuilder.isRepetition rule.name) (single : rule.unitTarget?.isSome) :
    (builder grammar).reduce id (node :: nodes) = .ok node := by
  unfold TreeBuilder.reduce
  rw [reductions_builder found, TreeBuilder.reductionOf, if_neg other, if_pos single]

theorem reduce_construct {constructor : OperandM Node} (found : grammar.rule? id = some rule)
    (other : ¬ TreeBuilder.isRepetition rule.name) (several : rule.unitTarget? = none)
    (known : constructor? grammar rule.name = some constructor) :
    (builder grammar).reduce id nodes = (constructor.run ⟨rule.name, nodes⟩).1 := by
  unfold TreeBuilder.reduce
  rw [reductions_builder found, TreeBuilder.reductionOf, if_neg other, several, known]
  rfl

theorem reduce_missing (found : grammar.rule? id = some rule)
    (other : ¬ TreeBuilder.isRepetition rule.name) (several : rule.unitTarget? = none)
    (unknown : constructor? grammar rule.name = none) :
    (builder grammar).reduce id nodes = .error (.noReduction rule.name) := by
  unfold TreeBuilder.reduce
  rw [reductions_builder found, TreeBuilder.reductionOf, if_neg other, several, unknown]
  rfl

end Reduce

/-! ### The rules of a grammar -/

/-- What is so of the repetitions in the expansion of the rules. -/
structure Named (repetitions : Repetitions) : Prop where
  names : ∀ body name, (body, name) ∈ repetitions → TreeBuilder.isRepetition name
  unique : ∀ body other name, (body, name) ∈ repetitions → (other, name) ∈ repetitions →
    body = other
  plain : ∀ body name, (body, name) ∈ repetitions → plainBody body

section Made

variable {grammar : JavaFrontend.Grammar} {id : Nat}

theorem Named.fits_collection (named : Named repetitions) (known : shapeOf name = some shape)
    (holds : shape.Holds node) : Fits repetitions name node where
  collection other found := by
    cases known.symm.trans found
    exact holds
  repetition body member := by
    rw [shapeOf_of_isRepetition (named.names body name member)] at known
    cases known

theorem Named.fits_repetition (named : Named repetitions) (member : (body, name) ∈ repetitions)
    (holds : (Shape.listOf (itemSortsOf (rowOf body))).Holds node) :
    Fits repetitions name node where
  collection shape found := by
    rw [shapeOf_of_isRepetition (named.names body name member)] at found
    cases found
  repetition other also := by
    rw [named.unique other body name also member]
    exact holds

/-- A rule that an alternative of the grammar spells is made into something of the shape of its
collection. -/
theorem Named.collection (named : Named repetitions) {alternative : Alternative}
    (member : alternative ∈ Grammar.rules)
    (found : grammar.rule? id = some ⟨alternative.name, production⟩)
    (spelled : Spells repetitions alternative.elements production)
    (fit : List.Forall₂ (PartFits repetitions) production nodes) :
    ∃ node, (builder grammar).reduce id nodes = .ok node ∧
      Fits repetitions alternative.name node ∧ node.words = words nodes := by
  have covers := List.all_eq_true.mp covered_rules alternative member
  unfold covered at covers
  cases known : shapeOf alternative.name with
  | none => simp [known] at covers
  | some shape =>
    simp only [known, Bool.and_eq_true, Bool.or_eq_true, List.all_eq_true] at covers
    obtain ⟨⟨⟨names, passes⟩, -⟩, constructs⟩ := covers
    have other : ¬ TreeBuilder.isRepetition alternative.name := fun repetition => by
      rw [shapeOf_of_isRepetition repetition] at known
      cases known
    cases several : (⟨alternative.name, production⟩ : Rule).unitTarget? with
    | some target =>
      obtain rfl : production = [.rule target] := DerivationTree.parts_of_unitTarget several
      obtain ⟨node, rest, holds, none, rfl⟩ := List.forall₂_cons_left_iff.mp fit
      cases none
      refine ⟨node, reduce_single found other (by simp [several]), ?_, by simp⟩
      exact named.fits_collection known (holds_of_rowPasses names passes spelled holds)
    | none =>
      rcases constructs with single | constructs
      · obtain ⟨target, elements⟩ : ∃ target, alternative.elements = [.rule target] := by
          unfold isName at single
          split at single
          · exact ⟨_, ‹_›⟩
          · cases single
        rw [elements] at spelled
        cases spelled with
        | rule _ rest =>
          cases rest
          cases several
      · obtain ⟨signature, signed, within, row, among, covering⟩ : ∃ signature,
            signatureOf alternative.name = some signature ∧ signature.result.within shape ∧
            ∃ row ∈ signature.rows, rowCovers row (rowOf alternative.elements) := by
          simpa [Option.any_eq_true] using constructs
        have goal : alternative.name ≠ Grammar.goalName := fun same => by
          rw [same, shapeOf_goalName] at known
          cases known
        obtain ⟨node, after, ran, holds, same⟩ := signature.makes row among alternative.name nodes
          (matches_of_rowCovers _ covering (matches_of_spells names spelled fit))
        refine ⟨node, ?_, named.fits_collection known (holds.within within), same⟩
        rw [reduce_construct found other several (constructor?_of_signatureOf signed goal), ran]

/-- A rule of a repetition is made into a list of what its body adds. -/
theorem Named.repetition (named : Named repetitions) (member : (body, name) ∈ repetitions)
    (found : grammar.rule? id = some ⟨name, production⟩)
    (origin : Spells repetitions body production ∨
      ∃ inner, production = .rule name :: inner ∧ Spells repetitions body inner)
    (fit : List.Forall₂ (PartFits repetitions) production nodes) :
    ∃ node, (builder grammar).reduce id nodes = .ok node ∧
      Fits repetitions name node ∧ node.words = words nodes := by
  have plain := named.plain body name member
  have repetition := named.names body name member
  rw [reduce_repetition found repetition]
  obtain ⟨node, made, holds, same⟩ : ∃ node,
      TreeBuilder.repeatedNode false ⟨name, production⟩ nodes = .ok node ∧
        (Shape.listOf (itemSortsOf (rowOf body))).Holds node ∧ node.words = words nodes := by
    rcases origin with spelled | ⟨inner, rfl, spelled⟩
    · exact repeatedNode_once plain repetition spelled fit
    · exact repeatedNode_again plain member spelled fit
  exact ⟨node, made, named.fits_repetition member holds, same⟩

end Made

end JavaFrontend.Java.Reduction
