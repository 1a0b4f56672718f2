import JavaFrontend.Java.Reduction.Types
import JavaFrontend.Proofs.Reduction.Spends
import JavaFrontend.Proofs.Trees.Keeping

/-!
The reductions for names, types and annotations keep what holds of all trees.
-/

namespace JavaFrontend.Java.Reduction

open OperandM

variable {Holds : Subtree → Prop} (free : ∀ subtree : Subtree, subtree.isFree → Holds subtree)

theorem keeps_first : Keeps Holds first := keeps_next

theorem keeps_empty : Keeps Holds empty := keeps_token.bind fun _ _ => .pure (every_bare rfl)

theorem keeps_list : Keeps Holds list :=
  keeps_rule.bind fun _ _ => keeps_items.bind fun _ every => .pure (every_listNode.mpr every)

/-! ### Names and types -/

theorem keeps_dottedName : Keeps Holds dottedName :=
  keeps_identifier.bind fun _ _ => keeps_items.bind fun _ every =>
    (keeps_allAs _ passes_identifier every).bind fun _ _ => .pure (every_bare rfl)

section

include free

theorem keeps_primitiveType : Keeps Holds primitiveType := by
  refine Yields.bind .peek fun node _ => ?_
  cases node.bind token? with
  | some token => exact keeps_next.bind fun _ _ => .pure (every_node rfl (free _ rfl) every_nil)
  | none =>
    refine (keeps_takeUntil _).bind fun nodes every =>
      (keeps_allAs _ passes_annotationUse (every_flatMap_items every)).bind fun annotations front =>
        keeps_type.bind fun type behind => ?_
    cases type with
    | primitiveType others kind position =>
      have all : Every Holds others.toList := every_row.mp (every_children behind)
      refine .pure (every_node rfl (free _ rfl) ?_)
      dsimp only [Tree.children]
      simp [front, all]
    | _ => exact .pure behind

end

theorem passes_segments : Passes Holds segments? := by
  intro node segments same every
  unfold segments? at same
  split at same <;> cases same
  have inside : Every Holds (Tree.classType _).children := every_children every
  exact every_row.mp inside

theorem every_types {types : List TypeExpr} (every : Every Holds types) :
    Every Holds (types.map Node.type) := (every_map Node.type fun _ => rfl).mpr every

theorem parts_classType : Yields (Every Holds) (fun node => ∃ segments,
    node = .type (.classType segments) ∧ Every Holds (Tree.classType segments).children)
    classType := by
  refine keeps_types.bind fun types every =>
    (keeps_allAs _ passes_segments (every_types every)).bind fun segments each =>
      .pure ⟨_, rfl, ?_⟩
  dsimp only [Tree.children]
  simpa using each

include free in
theorem keeps_simpleClassType : Keeps Holds simpleClassType := by
  refine keeps_annotations.bind fun annotations front => keeps_identifier.bind fun name _ =>
    keeps_typeArguments.bind fun arguments behind => .pure (every_node rfl (free _ rfl) ?_)
  have segment : Every Holds (Tree.segment annotations name arguments) := by
    refine every_tree (free _ rfl) ?_
    dsimp only [Tree.children]
    simp [front, behind]
  dsimp only [Tree.children]
  simp [segment]

/-! ### Brackets -/

/-- How many pairs of brackets stand behind the element type. -/
def pairs : TypeExpr → Nat
  | .arrayType _ dims => dims
  | _ => 0

/-- How many pairs of brackets a type, a declarator or dimensions alone have at their end. -/
def pairsIn : Node → Nat
  | .type type => pairs type
  | .dims count => count
  | .declarator (.declarator _ dims _) => dims
  | _ => 0

theorem pairs_withDims_le (type : TypeExpr) (dims : Nat) :
    pairs (type.withDims dims) ≤ pairs type + dims := by
  cases dims with
  | zero => exact Nat.le_refl _
  | succ dims =>
    cases type with
    | arrayType element inner => exact Nat.mod_le _ _
    | _ => exact Nat.le_add_left _ _

theorem every_withDims {type : TypeExpr} {dims : Nat}
    (own : dims ≠ 0 → Holds ⟨type.withDims dims⟩) (every : Every Holds type) :
    Every Holds (type.withDims dims) := by
  cases dims with
  | zero => exact every
  | succ dims =>
    have own := own (Nat.succ_ne_zero dims)
    cases type with
    | arrayType element inner =>
      have inside : Every Holds (Tree.arrayType element inner).children := every_children every
      exact every_tree own inside
    | _ => exact every_tree own (every_lone every)

/-- What holds of types holds of those with more dimensions, as long as there are no more pairs of
brackets than the budget. -/
def Merges (Holds : Subtree → Prop) (budget : Nat) : Prop :=
  ∀ (type : TypeExpr) (dims : Nat), Every Holds type → pairs type + dims ≤ budget →
    Every Holds (type.withDims dims)

variable {budget : Nat}

theorem Merges.map (merges : Merges Holds budget) {type : Option TypeExpr} {dims : Nat}
    (every : Every Holds type) (within : type.elim 0 pairs + dims ≤ budget) :
    Every Holds (type.map (·.withDims dims)) := by
  cases type with
  | none => exact every_none
  | some type => exact every_some.mpr (merges type dims (every_some.mp every) within)

theorem spends_type : Spends pairsIn (Every Holds) budget
    (fun type rest => Every Holds type ∧ pairs type + rest ≤ budget) type :=
  .nextAs fun {node _} same every => by
    cases node <;> cases same
    exact ⟨every, Nat.le_refl _⟩

theorem count_le_of_dims {node : Node} {count : Nat}
    (same : (match node with | .dims count => some count | _ => none) = some count) :
    id count ≤ pairsIn node := by
  cases node <;> cases same
  exact Nat.le_refl _

theorem spends_dims {Given : Node → Prop} : Spends pairsIn Given budget
    (fun dims rest => dims + rest ≤ budget) dims := by
  refine .bind (.take? count_le_of_dims) fun count rest within => ?_
  · cases count with
    | none => exact .pure within
    | some count => exact .pure within

theorem spends_arrayType (merges : Merges Holds budget) : Spends pairsIn (Every Holds) budget
    (fun node _ => Every Holds node ∧ pairsIn node ≤ budget) arrayType := by
  refine .bind spends_type fun type rest ⟨every, first⟩ => .bind spends_dims fun dims _ second =>
    .pure ⟨merges type dims every (by omega), ?_⟩
  exact Nat.le_trans (pairs_withDims_le type dims) (by omega)

theorem keeps_arrayDims : Keeps Holds arrayDims :=
  keeps_dims.bind fun _ _ => .pure (every_bare rfl)

section

include free

theorem passes_typeArgument : Passes Holds typeArgument? := by
  intro node value same every
  cases node with
  | type part =>
    cases same
    exact every_tree (free _ rfl) (every_lone every)
  | typeArgument part =>
    cases same
    exact every
  | _ => cases same

theorem keeps_typeArgumentList : Keeps Holds typeArgumentList :=
  keeps_items.bind fun _ every => (keeps_allAs _ (passes_typeArgument free) every).bind
    fun _ each => .pure each

theorem keeps_wildcard : Keeps Holds wildcard :=
  (keeps_expect _).bind fun _ _ => (keeps_eat _).bind fun _ _ =>
    .ite (keeps_type.bind fun _ every =>
        .pure (every_node rfl (free _ rfl) (every_lone every)))
      ((keeps_eat _).bind fun _ _ =>
        .ite (keeps_type.bind fun _ every =>
            .pure (every_node rfl (free _ rfl) (every_lone every)))
          (.pure (every_node rfl (free _ rfl) every_nil)))

omit free in
theorem keeps_typeParameterList : Keeps Holds typeParameterList :=
  keeps_items.bind fun _ every =>
    (keeps_allAs _ (fun {node _} same every => by cases node <;> cases same; exact every)
      every).bind fun _ each => .pure each

theorem keeps_typeParameter : Keeps Holds typeParameter := by
  refine keeps_annotations.bind fun annotations front => keeps_identifier.bind fun name _ =>
    (keeps_eat _).bind fun extending _ => ?_
  have last (bounds : List TypeExpr) (behind : Every Holds bounds) :
      Keeps Holds (pure (Node.typeParameter (Tree.typeParameter annotations name bounds))) := by
    refine .pure (every_node rfl (free _ rfl) ?_)
    dsimp only [Tree.children]
    simp [front, behind]
  exact .ite (keeps_types.bind last) (last [] every_nil)

omit free in
theorem keeps_additionalBound : Keeps Holds additionalBound :=
  (keeps_expect _).bind fun _ _ => keeps_type.bind fun _ every => .pure every

/-! ### Annotations -/

theorem passes_elementValue : Passes Holds elementValue? := by
  intro node value same every
  cases node with
  | elementValue part =>
    cases same
    exact every
  | annotationUse part =>
    cases same
    exact every_tree (free _ rfl) (every_lone every)
  | expr | name | literal | identifier =>
    cases same
    exact every_tree (free _ rfl) (every_lone (passes_expr free rfl every))
  | _ => cases same

omit free in
theorem passes_elementPair : Passes Holds elementPair? := fun {node _} same every => by
  cases node <;> cases same
  exact every

theorem keeps_annotationUse : Keeps Holds annotationUse := by
  refine (keeps_expect _).bind fun _ _ => keeps_name.bind fun name _ =>
    keeps_items.bind fun nodes every => ?_
  cases nodes with
  | nil => exact .pure (every_node rfl (free _ rfl) every_nil)
  | cons argument more =>
    obtain ⟨here, later⟩ := every_cons.mp every
    dsimp only
    cases chosen : elementPair? argument with
    | some pair =>
      refine (keeps_allAs _ passes_elementPair later).bind fun pairs each =>
        .pure (every_node rfl (free _ rfl) ?_)
      dsimp only [Tree.children]
      simp [passes_elementPair chosen here, each]
    | none =>
      refine (Yields.ofNode _ fun _ same => passes_elementValue free same here).bind
        fun value every => .pure (every_node rfl (free _ rfl) (every_lone every))

theorem keeps_elementPair : Keeps Holds elementPair :=
  keeps_identifier.bind fun _ _ => (keeps_expect _).bind fun _ _ =>
    (keeps_nextAs _ (passes_elementValue free)).bind fun _ every =>
      .pure (every_node rfl (free _ rfl) (every_lone every))

theorem keeps_elementArray : Keeps Holds elementArray :=
  keeps_items.bind fun _ every => (keeps_allAs _ (passes_elementValue free) every).bind
    fun _ each => .pure (every_node rfl (free _ rfl) (every_row.mpr (by simpa using each)))

theorem keeps_modifier : Keeps Holds modifier :=
  keeps_token.bind fun _ _ => .pure (every_node rfl (free _ rfl) every_nil)

end

end JavaFrontend.Java.Reduction
