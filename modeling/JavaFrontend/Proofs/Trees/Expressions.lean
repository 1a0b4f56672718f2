import JavaFrontend.Java.Reduction.Expressions
import JavaFrontend.Proofs.Trees.Statements

/-!
The reductions for expressions keep what holds of all trees.
-/

namespace JavaFrontend.Java.Reduction

open OperandM

variable {Holds : Subtree → Prop} (free : ∀ subtree : Subtree, subtree.isFree → Holds subtree)

section

include free

theorem keeps_primary : Keeps Holds primary :=
  (keeps_eat _).bind fun this _ => by
    cases this with
    | some this => exact .pure (every_node rfl (free _ rfl) every_nil)
    | none =>
      exact (keeps_eat _).bind fun _ _ =>
        .ite ((keeps_expr free).bind fun _ every => .pure every)
          (keeps_name.bind fun _ _ => .pure (every_node rfl (free _ rfl) every_nil))

theorem every_namedType (name : QualifiedName) : Every Holds (namedType name) := by
  refine every_tree (free _ rfl) (every_row.mpr ?_)
  rw [Row.toList_ofList]
  refine every_list.mpr fun segment among => ?_
  obtain ⟨part, -, rfl⟩ := List.mem_map.mp among
  exact every_tree (free _ rfl) every_nil

theorem passes_classLiteralType : Passes Holds classLiteralType? := by
  intro node value same every
  cases node with
  | token =>
    cases same
    exact every_pair.mpr ⟨every_none, every_bare rfl⟩
  | name part =>
    cases same
    exact every_pair.mpr ⟨every_some.mpr (every_namedType free part), every_bare rfl⟩
  | type part =>
    cases same
    exact every_pair.mpr ⟨every_some.mpr every, every_bare rfl⟩
  | _ => cases same

theorem spends_classLiteral {budget : Nat} (merges : Merges Holds budget) :
    Spends pairsIn (Every Holds) budget (fun node _ => Every Holds node) classLiteral := by
  have named : Spends pairsIn (Every Holds) budget (fun (named : Option TypeExpr × Position) rest =>
      Every Holds named.1 ∧ named.1.elim 0 pairs + rest ≤ budget)
      (nextAs "class literal type" classLiteralType?) := by
    have passes {node : Node} {named : Option TypeExpr × Position}
        (same : classLiteralType? node = some named) (every : Every Holds node) :
        Every Holds named.1 ∧ named.1.elim 0 pairs ≤ pairsIn node := by
      refine ⟨(every_pair.mp (passes_classLiteralType free same every)).1, ?_⟩
      cases node <;> cases same <;> exact Nat.le_refl _
    exact .nextAs passes
  refine named.bind fun (type, position) rest ⟨every, more⟩ =>
    .bind spends_dims fun dims _ within =>
      .pure (every_node rfl (free _ rfl) (every_optional.mpr ?_))
  rw [Optional.toOption_ofOption]
  exact merges.map every (by
    dsimp only at more
    omega)

/-! ### Objects and arrays -/

theorem keeps_qualifiedCreation : Keeps Holds qualifiedCreation := by
  refine (keeps_expr free).bind fun outer first => (keeps_expect _).bind fun _ _ =>
    (keeps_expr free).bind fun created every => ?_
  cases created with
  | creation none typeArguments type diamond arguments body position =>
    have parts := every_children every
    dsimp only [Tree.children] at parts
    simp only [every_append] at parts
    obtain ⟨⟨⟨⟨-, second⟩, third⟩, fourth⟩, last⟩ := parts
    refine .pure (every_node rfl (free _ rfl) ?_)
    exact every_append.mpr ⟨every_append.mpr ⟨every_append.mpr ⟨every_append.mpr
      ⟨every_lone first, second⟩, third⟩, fourth⟩, last⟩
  | _ => exact .mismatch _ _

theorem keeps_creation : Keeps Holds creation := by
  refine (keeps_expect _).bind fun _ _ => keeps_typeArguments.bind fun typeArguments first =>
    keeps_type.bind fun type second => (keeps_take fun _ _ => every_bare rfl).bind fun diamond _ =>
      keeps_arguments.bind fun arguments third => (keeps_take passes_classBody).bind
        fun body last => .pure (every_node rfl (free _ rfl) ?_)
  dsimp only [Tree.children]
  simp [first, second, third, last]

omit free in
theorem keeps_diamond : Keeps Holds diamond := .pure (every_bare rfl)

theorem keeps_argumentList : Keeps Holds argumentList :=
  (keeps_exprs free).bind fun _ every => .pure every

theorem keeps_arrayInitializer : Keeps Holds arrayInitializer :=
  (keeps_exprs free).bind fun _ every =>
    .pure (every_node rfl (free _ rfl) (every_row.mpr (by simpa using every)))

/-- The expression makes an array, by lengths or by values. -/
inductive IsNewArray : Expr → Prop where
  | lengths (element : TypeExpr) (lengths : Row .expr) (openDims : Nat) :
    IsNewArray (.newArray element lengths openDims)
  | values (element : TypeExpr) (dims : Nat) (values : Row .expr) :
    IsNewArray (.newArrayOf element dims values)

theorem parts_arrayCreation : Yields (Every Holds) (fun node => ∃ tree : Expr,
    node = .expr tree ∧ IsNewArray tree ∧ Every Holds tree.children) arrayCreation := by
  refine (keeps_expect _).bind fun _ _ => keeps_type.bind fun element first =>
    keeps_next.bind fun node every => ?_
  have byLengths : Yields (Every Holds) (fun node => ∃ tree : Expr,
      node = .expr tree ∧ IsNewArray tree ∧ Every Holds tree.children) (do
        let lengths ← exprsOf node
        return Node.expr (.newArray element lengths (← dims))) := by
    refine (keeps_exprsOf free every).bind fun lengths last => keeps_dims.bind fun dims _ =>
      .pure ⟨_, rfl, .lengths _ _ _, ?_⟩
    dsimp only [Tree.children]
    simp [first, last]
  cases node with
  | dims count =>
    refine (keeps_expr free).bind fun values last => ?_
    cases values with
    | arrayInitializer values =>
      refine .pure ⟨_, rfl, .values _ _ _, ?_⟩
      exact every_append.mpr ⟨every_lone first, every_children last⟩
    | _ => exact .mismatch _ _
  | _ => exact byLengths

theorem keeps_dimensionLength : Keeps Holds dimensionLength :=
  (keeps_expect _).bind fun _ _ => (keeps_expr free).bind fun _ every => .pure every

/-! ### Fields and methods -/

theorem keeps_receiver (separator : Kind) : Keeps Holds (receiver separator) := by
  refine keeps_next.bind fun node every => ?_
  extract_lets further
  have rest (receiver : Tree .receiver) (every : Every Holds receiver) :
      Keeps Holds (further receiver) :=
    (keeps_expect _).bind fun _ _ => .pure every
  cases node with
  | name name =>
    exact (keeps_nextIs _).bind fun _ _ => (keeps_anyIs _).bind fun _ _ =>
      .ite ((keeps_expect _).bind fun _ _ => (keeps_expect _).bind fun _ _ =>
          rest _ (every_tree (free _ rfl) every_nil))
        (rest _ (every_tree (free _ rfl) every_nil))
  | type type => exact rest _ (every_tree (free _ rfl) (every_lone every))
  | token token =>
    dsimp only
    cases tokenOf? .superWord (.token token) with
    | some token => exact rest _ (every_tree (free _ rfl) every_nil)
    | none =>
      exact (Yields.ofNode _ fun _ same => passes_expr free same every).bind fun _ every =>
        rest _ (every_tree (free _ rfl) (every_lone every))
  | _ =>
    exact (Yields.ofNode _ fun _ same => passes_expr free same every).bind fun _ every =>
      rest _ (every_tree (free _ rfl) (every_lone every))

theorem keeps_fieldAccess : Keeps Holds fieldAccess :=
  (keeps_receiver free _).bind fun _ every => keeps_identifier.bind fun _ _ =>
    .pure (every_node rfl (free _ rfl) (every_lone every))

theorem keeps_arrayAccess : Keeps Holds arrayAccess :=
  (keeps_expr free).bind fun _ first => (keeps_expect _).bind fun _ _ =>
    (keeps_expr free).bind fun _ second =>
      .pure (every_node rfl (free _ rfl) (every_both first second))

theorem keeps_methodInvocation : Keeps Holds methodInvocation := by
  refine keeps_count.bind fun _ _ => .ite ?_ ?_
  · refine keeps_name.bind fun name _ => keeps_arguments.bind fun arguments every => ?_
    cases name.qualifier? with
    | none => exact .pure (every_node rfl (free _ rfl) (every_row.mpr (by simpa using every)))
    | some qualifier =>
      have receiver : Every Holds (Tree.nameReceiver qualifier) :=
        every_tree (free _ rfl) every_nil
      refine .pure (every_node rfl (free _ rfl) ?_)
      dsimp only [Tree.children]
      simp [receiver, every, Row.toList]
  · refine (keeps_receiver free _).bind fun receiver first =>
      keeps_typeArguments.bind fun typeArguments second => keeps_identifier.bind fun name _ =>
        keeps_arguments.bind fun arguments last => .pure (every_node rfl (free _ rfl) ?_)
    dsimp only [Tree.children]
    simp [first, second, last]

theorem keeps_methodReference : Keeps Holds methodReference := by
  refine (keeps_receiver free _).bind fun receiver first =>
    keeps_typeArguments.bind fun typeArguments last => (keeps_eat _).bind fun _ _ => ?_
  have every (name : Option Identifier) : Every Holds
      (Node.expr (.methodReference receiver (.ofList typeArguments) name)) := by
    refine every_node rfl (free _ rfl) ?_
    dsimp only [Tree.children]
    simp [first, last]
  exact .ite (.pure (every none)) (keeps_identifier.bind fun _ _ => .pure (every _))

/-! ### Lambdas -/

omit free in
theorem passes_lambdaParameters : Passes Holds lambdaParameters? := fun {node _} same every => by
  cases node <;> cases same
  exact every

theorem keeps_lambda : Keeps Holds lambda :=
  (keeps_nextAs _ passes_lambdaParameters).bind fun _ first => (keeps_expect _).bind fun _ _ =>
    keeps_next.bind fun node every => by
      cases node with
      | block body => exact .pure (every_node rfl (free _ rfl) (every_both first every))
      | _ =>
        exact (Yields.ofNode _ fun _ same => passes_expr free same every).bind fun _ second =>
          .pure (every_node rfl (free _ rfl) (every_both first second))

theorem keeps_lambdaParameters : Keeps Holds lambdaParameters := by
  refine keeps_rest.bind fun nodes every =>
    (keeps_allAs _ (passes_guard _) (every_flatMap_items every)).bind fun parts each => ?_
  have parameters := every_filterMap passes_parameter each
  split
  · exact .pure (every_node rfl (free _ rfl) every_nil)
  · exact .pure (every_node rfl (free _ rfl) (every_row.mpr (by simpa using parameters)))

/-! ### Operators -/

theorem keeps_assignment : Keeps Holds assignment :=
  (keeps_expr free).bind fun _ first => keeps_token.bind fun _ _ => (keeps_expr free).bind
    fun _ second => .pure (every_node rfl (free _ rfl) (every_both first second))

theorem keeps_conditional : Keeps Holds conditional :=
  (keeps_expr free).bind fun _ first => (keeps_expect _).bind fun _ _ => (keeps_expr free).bind
    fun _ second => (keeps_expect _).bind fun _ _ => (keeps_expr free).bind fun _ third =>
      .pure (every_node rfl (free _ rfl) (every_cons.mpr ⟨first, every_both second third⟩))

theorem keeps_binary : Keeps Holds binary :=
  (keeps_expr free).bind fun _ first => keeps_token.bind fun _ _ =>
    .ite (keeps_type.bind fun _ second =>
        .pure (every_node rfl (free _ rfl) (every_both first second)))
      ((keeps_expr free).bind fun _ second =>
        .pure (every_node rfl (free _ rfl) (every_both first second)))

theorem keeps_leading : Keeps Holds leading :=
  keeps_token.bind fun _ _ => (keeps_expr free).bind fun _ every =>
    .pure (every_node rfl (free _ rfl) (every_lone every))

theorem keeps_trailing : Keeps Holds trailing :=
  (keeps_expr free).bind fun _ every => keeps_token.bind fun _ _ =>
    .pure (every_node rfl (free _ rfl) (every_lone every))

theorem keeps_cast : Keeps Holds cast := by
  refine (keeps_expect _).bind fun _ _ => keeps_type.bind fun type first =>
    (keeps_takeUntil _).bind fun more every =>
      (keeps_allAs _ passes_type (every_flatMap_items every)).bind fun others second =>
        (keeps_expect _).bind fun _ _ => (keeps_expr free).bind fun value last =>
          .pure (every_node rfl (free _ rfl) ?_)
  dsimp only [Tree.children]
  simp [first, second, last, Row.toList]

end

end JavaFrontend.Java.Reduction
