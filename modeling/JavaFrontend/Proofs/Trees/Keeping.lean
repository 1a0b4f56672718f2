import JavaFrontend.Proofs.Java.Children
import JavaFrontend.Proofs.Reduction.Yields

/-!
What holds of every tree. A reduction takes trees from its operands and builds others around them,
so what holds of all trees in the operands, and of whatever is built, holds of all trees in what the
reduction makes (`Keeps`). There is one rule for each way of asking for an operand.
-/

namespace JavaFrontend

open Java

/-! ### The trees in nodes -/

/-- What has trees in it, and those of them that are in no other. -/
class HasTrees (α : Type) where
  trees : α → List Subtree

export HasTrees (trees)

instance : HasTrees Unit := ⟨fun _ => []⟩

instance : HasTrees Bool := ⟨fun _ => []⟩

instance : HasTrees Nat := ⟨fun _ => []⟩

instance : HasTrees String := ⟨fun _ => []⟩

instance : HasTrees Position := ⟨fun _ => []⟩

instance : HasTrees Token := ⟨fun _ => []⟩

instance : HasTrees Identifier := ⟨fun _ => []⟩

instance : HasTrees QualifiedName := ⟨fun _ => []⟩

instance : HasTrees Subtree := ⟨fun tree => [tree]⟩

instance {category : Category} : HasTrees (Tree category) := ⟨fun tree => [⟨tree⟩]⟩

section Containers

variable {α β : Type} [HasTrees α] [HasTrees β]

instance : HasTrees (List α) := ⟨fun values => values.flatMap trees⟩

instance : HasTrees (Option α) := ⟨fun value => value.toList.flatMap trees⟩

instance : HasTrees (α × β) := ⟨fun pair => trees pair.1 ++ trees pair.2⟩

end Containers

mutual

def Node.trees : Node → List Subtree
  | .token _ | .identifier _ | .literal _ | .name _ | .dims _ | .diamond | .empty _ => []
  | .type part => [⟨part⟩]
  | .typeArguments parts => HasTrees.trees parts
  | .typeArgument part => [⟨part⟩]
  | .typeParameters parts => HasTrees.trees parts
  | .typeParameter part => [⟨part⟩]
  | .annotationUse part => [⟨part⟩]
  | .elementValue part => [⟨part⟩]
  | .elementPair part => [⟨part⟩]
  | .modifier part => [⟨part⟩]
  | .expr part => [⟨part⟩]
  | .arguments parts => HasTrees.trees parts
  | .lambdaParameters part => [⟨part⟩]
  | .stmt part => [⟨part⟩]
  | .block part => [⟨part⟩]
  | .varDeclaration part => [⟨part⟩]
  | .declarator part => [⟨part⟩]
  | .parameter part => [⟨part⟩]
  | .catchClause part => [⟨part⟩]
  | .finallyBlock part => [⟨part⟩]
  | .resources parts => HasTrees.trees parts
  | .resource part => [⟨part⟩]
  | .switchLabel part => [⟨part⟩]
  | .switchGroup part => [⟨part⟩]
  | .switchBlock parts => HasTrees.trees parts
  | .superclass part => [⟨part⟩]
  | .interfaces parts => HasTrees.trees parts
  | .exceptions parts => HasTrees.trees parts
  | .classBody part => [⟨part⟩]
  | .member part => [⟨part⟩]
  | .enumConstant part => [⟨part⟩]
  | .enumBody constants body => HasTrees.trees (constants, body)
  | .typeDeclaration part => [⟨part⟩]
  | .package part => [⟨part⟩]
  | .importing part => [⟨part⟩]
  | .unit part => [⟨part⟩]
  | .list _ items | .generic _ items => Node.treesOfAll items

def Node.treesOfAll : List Node → List Subtree
  | [] => []
  | node :: rest => node.trees ++ Node.treesOfAll rest

end

instance : HasTrees Node := ⟨Node.trees⟩

/-- All trees in it are as `Holds` says, at whatever depth. -/
def Every {α : Type} [HasTrees α] (Holds : Subtree → Prop) (value : α) : Prop :=
  ∀ tree ∈ trees value, ∀ inner ∈ tree.preorder, Holds inner

variable {α β : Type} [HasTrees α] [HasTrees β] {Holds : Subtree → Prop} {category : Category}

theorem every_bare {value : α} (bare : trees value = []) : Every Holds value := by
  intro tree among
  rw [bare] at among
  exact absurd among List.not_mem_nil

theorem every_list {values : List α} :
    Every Holds values ↔ ∀ value ∈ values, Every Holds value := by
  constructor
  · intro every value member tree among
    exact every tree (List.mem_flatMap.mpr ⟨value, member, among⟩)
  · intro each tree among
    obtain ⟨value, member, among⟩ := List.mem_flatMap.mp among
    exact each value member tree among

@[simp] theorem every_none : Every Holds (none : Option α) := every_bare rfl

@[simp] theorem every_some {value : α} : Every Holds (some value) ↔ Every Holds value := by
  rw [Every, show trees (some value) = trees value from List.append_nil _]
  rfl

@[simp] theorem every_pair {pair : α × β} :
    Every Holds pair ↔ Every Holds pair.1 ∧ Every Holds pair.2 :=
  List.forall_mem_append

theorem every_getD {values : Option (List α)} (every : Every Holds values) :
    Every Holds (values.getD []) := by
  cases values with
  | none => exact every_bare rfl
  | some values => exact every_some.mp every

theorem Node.treesOfAll_eq (nodes : List Node) : Node.treesOfAll nodes = HasTrees.trees nodes := by
  induction nodes with
  | nil => rfl
  | cons node nodes ih => exact congrArg (node.trees ++ ·) ih

@[simp] theorem every_listNode {rule : String} {items : List Node} :
    Every Holds (Node.list rule items) ↔ Every Holds items := by
  rw [Every, Every, ← Node.treesOfAll_eq]
  rfl

theorem every_items {node : Node} (every : Every Holds node) : Every Holds node.items := by
  cases node with
  | list rule items => exact every_listNode.mp every
  | _ => exact every_list.mpr (List.forall_mem_singleton.mpr every)

/-! ### Trees built of others -/

@[simp] theorem every_nil : Every Holds ([] : List α) := every_bare rfl

@[simp] theorem every_cons {value : α} {values : List α} :
    Every Holds (value :: values) ↔ Every Holds value ∧ Every Holds values := by
  rw [every_list, every_list, List.forall_mem_cons]

@[simp] theorem every_append {values others : List α} :
    Every Holds (values ++ others) ↔ Every Holds values ∧ Every Holds others := by
  rw [every_list, every_list, every_list, List.forall_mem_append]

@[simp] theorem every_flatten {lists : List (List α)} :
    Every Holds lists.flatten ↔ Every Holds lists := by
  simp only [every_list, List.mem_flatten]
  exact ⟨fun each list member value inside => each value ⟨list, member, inside⟩,
    fun each value ⟨list, member, inside⟩ => each list member value inside⟩

theorem every_map {values : List α} (wrap : α → β)
    (same : ∀ value, trees (wrap value) = trees value) :
    Every Holds (values.map wrap) ↔ Every Holds values := by
  rw [every_list, every_list, List.forall_mem_map]
  exact forall₂_congr fun value _ => by rw [Every, Every, same]

@[simp] theorem every_subtree {tree : Tree category} :
    Every Holds (⟨tree⟩ : Subtree) ↔ Every Holds tree := Iff.rfl

theorem every_lone {tree : Tree category} (every : Every Holds tree) :
    Every Holds [(⟨tree⟩ : Subtree)] := every_cons.mpr ⟨every, every_nil⟩

theorem every_both {category' : Category} {tree : Tree category} {other : Tree category'}
    (first : Every Holds tree) (second : Every Holds other) :
    Every Holds [(⟨tree⟩ : Subtree), ⟨other⟩] := every_cons.mpr ⟨first, every_lone second⟩

@[simp] theorem every_row : {row : Row category} →
    (Every Holds row.subtrees ↔ Every Holds row.toList)
  | .nil => iff_of_true every_nil every_nil
  | .cons tree rest => by
    rw [Row.subtrees, Row.toList, every_cons, every_cons, every_row, every_subtree]

@[simp] theorem every_optional {tree : Optional category} :
    Every Holds tree.subtrees ↔ Every Holds tree.toOption := by
  cases tree with
  | absent => exact iff_of_true every_nil every_none
  | present tree => exact every_cons.trans ((and_iff_left every_nil).trans every_some.symm)

@[simp] theorem every_absent :
    Every Holds (Optional.absent : Optional category).toOption := every_none

/-- A tree is as `Holds` says at any depth if it is so itself and those directly in it are. -/
theorem every_tree {tree : Tree category} (own : Holds ⟨tree⟩)
    (parts : Every Holds tree.children) : Every Holds tree := by
  intro subtree among inner within
  rw [List.mem_singleton.mp among, Subtree.preorder_eq] at within
  rcases List.mem_cons.mp within with rfl | within
  · exact own
  · obtain ⟨child, member, within⟩ := List.mem_flatMap.mp within
    exact every_list.mp parts child member child (List.mem_singleton_self child) inner within

theorem every_node {node : Node} {tree : Tree category} (same : trees node = [⟨tree⟩])
    (own : Holds ⟨tree⟩) (parts : Every Holds tree.children) : Every Holds node := by
  have every : Every Holds tree := every_tree own parts
  rwa [Every, show trees tree = trees node from same.symm] at every

theorem every_self {tree : Tree category} (every : Every Holds tree) : Holds ⟨tree⟩ := by
  refine every ⟨tree⟩ (List.mem_singleton_self _) ⟨tree⟩ ?_
  rw [Subtree.preorder_eq]
  exact List.mem_cons_self

/-- What a tree that is so at any depth has directly in it is so, too. -/
theorem every_children {tree : Tree category} (every : Every Holds tree) :
    Every Holds tree.children := by
  refine every_list.mpr fun child member subtree among inner within => ?_
  rw [List.mem_singleton.mp among] at within
  refine every ⟨tree⟩ (List.mem_singleton_self _) inner ?_
  rw [Subtree.preorder_eq]
  exact List.mem_cons_of_mem _ (List.mem_flatMap.mpr ⟨child, member, within⟩)

/-! ### Steps of reductions -/

/-- The trees that may be built of any parts. The others are sound only if their parts are of some
form: there has to be at least one of some kind, or one must not end in a certain way. -/
def Java.Subtree.isFree : Subtree → Bool
  | ⟨.classType .nil⟩ | ⟨.arrayType ..⟩ | ⟨.annotationPairs _ .nil _⟩ | ⟨.cast .nil _⟩
  | ⟨.newArray _ .nil _⟩ | ⟨.newArrayOf ..⟩ | ⟨.ifThenElse ..⟩ | ⟨.tryStmt .nil _ .nil .absent⟩
  | ⟨.catchClause _ .nil _ _⟩ | ⟨.switchStmt ..⟩ | ⟨.switchGroup .nil _⟩
  | ⟨.varDeclaration _ _ .nil⟩ => false
  | _ => true

namespace OperandM

/-- What holds of all trees in the operands holds of all in what the step comes to. -/
abbrev Keeps (Holds : Subtree → Prop) (step : OperandM α) : Prop :=
  Yields (Every Holds) (Every Holds) step

/-- What is selected is no worse than the node. -/
def Passes (Holds : Subtree → Prop) (select : Node → Option α) : Prop :=
  ∀ {node value}, select node = some value → Every Holds node → Every Holds value

section Asking

variable {select : Node → Option α} {nodes : List Node}

theorem keeps_look (answer : Operands → α) (none : ∀ operands, trees (answer operands) = []) :
    Keeps Holds (do return answer (← get) : OperandM α) :=
  fun operands given value left ran =>
    (Yields.look answer operands given value left ran).imp_left fun _ => by
      cases ran
      exact every_bare (none operands)

theorem keeps_rule : Keeps Holds rule := keeps_look _ fun _ => rfl

theorem keeps_count : Keeps Holds count := keeps_look _ fun _ => rfl

theorem keeps_nextIs (kind : Kind) : Keeps Holds (nextIs kind) :=
  .bind .peek fun _ _ => .pure (every_bare rfl)

theorem keeps_anyIs (kind : Kind) : Keeps Holds (anyIs kind) := keeps_look _ fun _ => rfl

theorem keeps_next : Keeps Holds next := .next

theorem keeps_rest : Keeps Holds rest := Yields.rest.mono fun _ => every_list.mpr

theorem keeps_takeUntil (stop : Node → Bool) : Keeps Holds (takeUntil stop) :=
  Yields.takeUntil.mono fun _ => every_list.mpr

theorem keeps_nextAs (expected : String) (passes : Passes Holds select) :
    Keeps Holds (nextAs expected select) := .nextAs expected passes

theorem keeps_take (passes : Passes Holds select) : Keeps Holds (take? select) :=
  (Yields.take? passes).mono fun taken each => by
    cases taken with
    | none => exact every_none
    | some value => exact every_some.mpr (each value rfl)

theorem keeps_allAs (expected : String) (passes : Passes Holds select)
    (every : Every Holds nodes) : Keeps Holds (allAs expected select nodes) :=
  (Yields.allAs expected fun node among _ chosen =>
    passes chosen (every_list.mp every node among)).mono fun _ => every_list.mpr

theorem every_flatMap_items (every : Every Holds nodes) :
    Every Holds (nodes.flatMap Node.items) := by
  refine every_list.mpr fun item member => ?_
  obtain ⟨node, among, inside⟩ := List.mem_flatMap.mp member
  exact every_list.mp (every_items (every_list.mp every node among)) item inside

theorem every_filter {accept : Node → Bool} (every : Every Holds nodes) :
    Every Holds (nodes.filter accept) :=
  every_list.mpr fun node member => every_list.mp every node (List.mem_filter.mp member).1

theorem every_filterMap (passes : Passes Holds select) (every : Every Holds nodes) :
    Every Holds (nodes.filterMap select) := by
  refine every_list.mpr fun value member => ?_
  obtain ⟨node, among, chosen⟩ := List.mem_filterMap.mp member
  exact passes chosen (every_list.mp every node among)

theorem every_getLast? {values : List α} (every : Every Holds values) :
    Every Holds values.getLast? := by
  cases last : values.getLast? with
  | none => exact every_none
  | some value => exact every_some.mpr (every_list.mp every value (List.mem_of_getLast? last))

theorem passes_guard (accept : Node → Bool) : Passes Holds (Option.guard accept) := by
  intro node value same every
  obtain ⟨rfl, -⟩ := Option.guard_eq_some_iff.mp same
  exact every

theorem keeps_items : Keeps Holds items :=
  keeps_rest.bind fun _ every => .pure (every_flatMap_items (every_filter every))

end Asking

/-! ### Leaves -/

theorem passes_token : Passes Holds token? := fun _ _ => every_bare rfl

theorem keeps_token : Keeps Holds token := keeps_nextAs _ passes_token

theorem passes_tokenOf (kind : Kind) : Passes Holds (tokenOf? kind) := fun _ _ => every_bare rfl

theorem keeps_expect (kind : Kind) : Keeps Holds (expect kind) :=
  keeps_nextAs _ (passes_tokenOf kind)

theorem keeps_eat (kind : Kind) : Keeps Holds (eat? kind) := keeps_take (passes_tokenOf kind)

theorem passes_identifier : Passes Holds identifier? := fun _ _ => every_bare rfl

theorem keeps_identifier : Keeps Holds identifier := keeps_nextAs _ passes_identifier

theorem keeps_takeIdentifier : Keeps Holds takeIdentifier := keeps_take passes_identifier

theorem keeps_name : Keeps Holds name := keeps_nextAs _ fun _ _ => every_bare rfl

theorem keeps_dims : Keeps Holds dims :=
  (keeps_take fun _ _ => every_bare rfl).bind fun _ _ => .pure (every_bare rfl)

/-! ### Trees -/

theorem passes_type : Passes Holds type? := fun {node _} same every => by
  cases node <;> cases same
  exact every

theorem keeps_type : Keeps Holds type := keeps_nextAs _ passes_type

theorem keeps_types : Keeps Holds types := keeps_items.bind fun _ every =>
  keeps_allAs _ passes_type every

theorem keeps_block : Keeps Holds block := keeps_nextAs _ fun {node _} same every => by
  cases node <;> cases same
  exact every

theorem passes_annotationUse : Passes Holds annotationUse? := fun {node _} same every => by
  cases node <;> cases same
  exact every

theorem passes_itemsIf {γ : Type} (select : Node → Option γ) : Passes Holds (itemsIf select) := by
  intro node values same every
  have items := every_items every
  unfold itemsIf at same
  split at same
  · cases same
  · next first more known =>
    rw [known] at items
    split at same <;> cases same
    exact items

theorem keeps_repetition {select : Node → Option α} (expected : String)
    (passes : Passes Holds select) : Keeps Holds (repetition expected select) := by
  refine (keeps_take (passes_itemsIf select)).bind fun nodes every => ?_
  cases nodes with
  | none => exact .pure every_nil
  | some nodes => exact keeps_allAs expected passes (every_some.mp every)

theorem keeps_annotations : Keeps Holds annotations := keeps_repetition _ passes_annotationUse

theorem keeps_typeArguments : Keeps Holds typeArguments :=
  (keeps_take fun {node _} same every => by cases node <;> cases same; exact every).bind
    fun _ every => .pure (every_getD every)

theorem keeps_typeParameters : Keeps Holds typeParameters :=
  (keeps_take fun {node _} same every => by cases node <;> cases same; exact every).bind
    fun _ every => .pure (every_getD every)

theorem passes_arguments : Passes Holds arguments? := fun {node _} same every => by
  cases node <;> cases same
  exact every

theorem keeps_arguments : Keeps Holds arguments := keeps_nextAs _ passes_arguments

/-! ### Trees around others -/

section Free

variable (free : ∀ subtree : Subtree, subtree.isFree → Holds subtree)
include free

theorem passes_modifier : Passes Holds modifier? := by
  intro node value same every
  cases node with
  | modifier part =>
    cases same
    exact every
  | annotationUse part =>
    cases same
    exact every_tree (free _ rfl) (every_lone every)
  | _ => cases same

theorem keeps_modifiers : Keeps Holds modifiers := keeps_repetition _ (passes_modifier free)

theorem passes_expr : Passes Holds Node.expr? := by
  intro node value same every
  cases node with
  | expr part =>
    cases same
    exact every
  | name | literal | identifier =>
    cases same
    exact every_tree (free _ rfl) every_nil
  | _ => cases same

theorem keeps_expr : Keeps Holds expr := keeps_nextAs _ (passes_expr free)

theorem keeps_takeExpr : Keeps Holds takeExpr := keeps_take fun {node _} same every => by
  cases node with
  | identifier => cases same
  | _ => exact passes_expr free same every

theorem keeps_exprs : Keeps Holds exprs := keeps_items.bind fun _ every =>
  keeps_allAs _ (passes_expr free) every

end Free

end OperandM

end JavaFrontend
