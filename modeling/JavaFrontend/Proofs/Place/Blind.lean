import JavaFrontend.Proofs.Place.Unplaced

/-!
Reductions that are blind to places: on operands without places they do just the same, and what they
make is what they make otherwise, without its places.
-/

namespace JavaFrontend

open Java

variable {α β : Type} [Placed α] [Placed β]

namespace OperandM

/-- Without places, the second step does what the first one does. -/
def Alike (step bare : OperandM α) : Prop :=
  ∀ operands : Operands,
    bare.run (unplaced operands) = Prod.map unplaced unplaced (step.run operands)

/-- The step does not look at places. -/
abbrev Blind (step : OperandM α) : Prop := Alike step step

namespace Alike

theorem pure {value bare : α} (same : unplaced value = bare) :
    Alike (Pure.pure value) (Pure.pure bare) := by
  subst same
  exact fun _ => rfl

theorem bind {step bare : OperandM α} {go further : α → OperandM β} (first : Alike step bare)
    (then_ : ∀ value, Alike (go value) (further (unplaced value))) :
    Alike (step >>= go) (bare >>= further) := by
  intro operands
  change (ExceptT.bindCont further (bare.run (unplaced operands)).1).run
      (bare.run (unplaced operands)).2 =
    Prod.map unplaced unplaced ((ExceptT.bindCont go (step.run operands).1).run
      (step.run operands).2)
  rw [first]
  cases step.run operands with
  | mk outcome left =>
    cases outcome with
    | error reason => rfl
    | ok value => exact then_ value left

theorem fail (reason : ReduceError) :
    Alike (throw reason : OperandM α) (throw reason) := fun _ => rfl

theorem ite {condition : Prop} [Decidable condition] {yes yes' no no' : OperandM α}
    (holds : Alike yes yes') (fails : Alike no no') :
    Alike (if condition then yes else no) (if condition then yes' else no') := by
  split
  · exact holds
  · exact fails

end Alike

/-! ### What is asked about nodes -/

/-- What is selected does not depend on places. -/
def Selects (select : Node → Option α) : Prop :=
  ∀ node, select (unplaced node) = unplaced (select node)

theorem kindName_unplaced (node : Node) : (unplaced node).kindName = node.kindName := by
  cases node <;> rfl

theorem tokenKind?_unplaced (node : Node) : (unplaced node).tokenKind? = node.tokenKind? := by
  cases node <;> rfl

theorem isToken_unplaced (node : Node) : (unplaced node).isToken = node.isToken := by
  rw [Node.isToken, tokenKind?_unplaced, Node.isToken]

theorem unplacedAll_eq (nodes : List Node) : Node.unplacedAll nodes = unplaced nodes := by
  induction nodes with
  | nil => rfl
  | cons node nodes ih => rw [Node.unplacedAll, ih]; rfl

theorem items_unplaced (node : Node) : (unplaced node).items = unplaced node.items := by
  cases node with
  | list rule items => exact unplacedAll_eq items
  | _ => rfl

theorem flatMap_items_unplaced (nodes : List Node) :
    (unplaced nodes).flatMap Node.items = unplaced (nodes.flatMap Node.items) := by
  induction nodes with
  | nil => rfl
  | cons node nodes ih =>
    rw [unplaced_cons, List.flatMap_cons, List.flatMap_cons, ih, items_unplaced, unplaced_append]

theorem filterMap_unplaced {select : Node → Option α} (selects : Selects select)
    (nodes : List Node) : (unplaced nodes).filterMap select = unplaced (nodes.filterMap select) := by
  change (nodes.map unplaced).filterMap select = (nodes.filterMap select).map unplaced
  rw [List.filterMap_map, List.map_filterMap]
  exact congrArg (nodes.filterMap ·) (funext selects)

theorem filter_unplaced {accept : Node → Bool}
    (same : ∀ node, accept (unplaced node) = accept node) (nodes : List Node) :
    (unplaced nodes).filter accept = unplaced (nodes.filter accept) := by
  change (nodes.map unplaced).filter accept = (nodes.filter accept).map unplaced
  rw [List.filter_map]
  exact congrArg _ (List.filter_congr fun node _ => same node)

theorem selects_guard {accept : Node → Bool}
    (same : ∀ node, accept (unplaced node) = accept node) : Selects (Option.guard accept) := by
  intro node
  simp only [Option.guard, same]
  split <;> rfl

/-! ### Asking for operands -/

theorem blind_rule : Blind rule := fun _ => rfl

theorem blind_count : Blind count := fun operands =>
  congrArg (fun length => (Except.ok length, unplaced operands)) (List.length_map _)

theorem blind_peek : Blind peek := fun operands =>
  congrArg (fun first => (Except.ok first, unplaced operands)) List.head?_map

theorem blind_next : Blind next := by
  rintro ⟨rule, nodes⟩
  cases nodes <;> rfl

theorem blind_rest : Blind rest := fun _ => rfl

theorem blind_nextIs (kind : Kind) : Blind (nextIs kind) := by
  refine blind_peek.bind fun node => .pure ?_
  cases node with
  | none => rfl
  | some node => exact congrArg (· == some kind) (tokenKind?_unplaced node).symm

theorem blind_anyIs (kind : Kind) : Blind (anyIs kind) := fun operands =>
  congrArg (fun found => (Except.ok found, unplaced operands))
    (List.any_map.trans (congrArg operands.items.any
      (funext fun node => congrArg (· == some kind) (tokenKind?_unplaced node))))

theorem blind_takeUntil {stop : Node → Bool} (same : ∀ node, stop (unplaced node) = stop node) :
    Blind (takeUntil stop) := by
  have stops : (fun node => !stop node) ∘ unplaced = fun node => !stop node :=
    funext fun node => congrArg not (same node)
  intro operands
  change (Except.ok ((operands.items.map unplaced).takeWhile (!stop ·)),
      Operands.mk operands.rule ((operands.items.map unplaced).dropWhile (!stop ·))) =
    (Except.ok ((operands.items.takeWhile (!stop ·)).map unplaced),
      Operands.mk operands.rule ((operands.items.dropWhile (!stop ·)).map unplaced))
  rw [List.takeWhile_map, List.dropWhile_map, stops]

theorem alike_mismatch (expected : String) (node : Node) :
    Alike (mismatch expected node : OperandM α) (mismatch expected (unplaced node)) :=
  blind_rule.bind fun rule => by
    rw [kindName_unplaced]
    exact .fail _

section Selecting

variable {select : Node → Option α} (selects : Selects select)
include selects

theorem alike_ofNode (expected : String) (node : Node) :
    Alike (ofNode expected select node) (ofNode expected select (unplaced node)) := by
  unfold ofNode
  rw [selects node]
  cases select node with
  | none => exact alike_mismatch expected node
  | some value => exact .pure rfl

theorem blind_nextAs (expected : String) : Blind (nextAs expected select) :=
  blind_next.bind (alike_ofNode selects expected)

theorem blind_take : Blind (take? select) := by
  refine blind_peek.bind fun node => ?_
  have chosen : (unplaced node).bind select = unplaced (node.bind select) := by
    cases node with
    | none => rfl
    | some node => exact selects node
  rw [chosen]
  cases node.bind select with
  | none => exact .pure rfl
  | some value => exact blind_next.bind fun _ => .pure rfl

theorem alike_allAs (expected : String) (nodes : List Node) :
    Alike (allAs expected select nodes) (allAs expected select (unplaced nodes)) := by
  unfold allAs
  induction nodes with
  | nil => exact .pure rfl
  | cons node nodes ih =>
    rw [unplaced_cons, List.mapM_cons, List.mapM_cons]
    exact (alike_ofNode selects expected node).bind fun _ => ih.bind fun _ => .pure rfl

end Selecting

theorem blind_items : Blind items := by
  refine blind_rest.bind fun nodes => .pure ?_
  rw [filter_unplaced fun node => congrArg not (isToken_unplaced node), flatMap_items_unplaced]

theorem selects_tokenOf (kind : Kind) : Selects (tokenOf? kind) := by
  intro node
  cases node with
  | token part =>
    change (if part.kind == kind then some (unplaced part) else none) =
      unplaced (if part.kind == kind then some part else none)
    split <;> rfl
  | _ => rfl

theorem blind_token : Blind token := blind_nextAs (fun node => by cases node <;> rfl) _

theorem blind_expect (kind : Kind) : Blind (expect kind) := blind_nextAs (selects_tokenOf kind) _

theorem blind_eat (kind : Kind) : Blind (eat? kind) := blind_take (selects_tokenOf kind)

theorem selects_identifier : Selects identifier? := fun node => by cases node <;> rfl

theorem blind_identifier : Blind identifier := blind_nextAs selects_identifier _

theorem blind_takeIdentifier : Blind takeIdentifier := blind_take selects_identifier

theorem blind_name : Blind name := blind_nextAs (fun node => by cases node <;> rfl) _

theorem selects_expr : Selects Node.expr? := fun node => by cases node <;> rfl

theorem blind_expr : Blind expr := blind_nextAs selects_expr _

theorem blind_takeExpr : Blind takeExpr := blind_take fun node => by cases node <;> rfl

theorem selects_type : Selects type? := fun node => by cases node <;> rfl

theorem blind_type : Blind type := blind_nextAs selects_type _

theorem blind_block : Blind block := blind_nextAs (fun node => by cases node <;> rfl) _

/-! ### Optional parts and lists -/

theorem blind_dims : Blind dims :=
  (blind_take fun node => by cases node <;> rfl).bind fun count => .pure (by cases count <;> rfl)

theorem selects_modifier : Selects modifier? := fun node => by cases node <;> rfl

theorem selects_annotationUse : Selects annotationUse? := fun node => by cases node <;> rfl

theorem selects_itemsIf {select : Node → Option α} (selects : Selects select) :
    Selects (itemsIf select) := by
  intro node
  unfold itemsIf
  rw [items_unplaced]
  cases node.items with
  | nil => rfl
  | cons first more =>
    rw [unplaced_cons]
    dsimp only
    rw [selects]
    cases select first <;> rfl

theorem blind_repetition {select : Node → Option α} (selects : Selects select)
    (expected : String) : Blind (repetition expected select) := by
  refine (blind_take (selects_itemsIf selects)).bind fun nodes => ?_
  cases nodes with
  | none => exact .pure rfl
  | some nodes => exact alike_allAs selects expected nodes

theorem blind_modifiers : Blind modifiers := blind_repetition selects_modifier _

theorem blind_annotations : Blind annotations := blind_repetition selects_annotationUse _

/-- What is left out is an empty list. -/
theorem alike_getD (values : Option (List α)) :
    Alike (Pure.pure (values.getD [])) (Pure.pure ((unplaced values).getD [])) :=
  .pure (getD_unplaced values).symm

theorem blind_typeArguments : Blind typeArguments :=
  (blind_take fun node => by cases node <;> rfl).bind alike_getD

theorem blind_typeParameters : Blind typeParameters :=
  (blind_take fun node => by cases node <;> rfl).bind alike_getD

theorem selects_arguments : Selects arguments? := fun node => by cases node <;> rfl

theorem blind_arguments : Blind arguments := blind_nextAs selects_arguments _

theorem blind_exprs : Blind exprs := blind_items.bind (alike_allAs selects_expr _)

theorem blind_types : Blind types := blind_items.bind (alike_allAs selects_type _)

end OperandM

end JavaFrontend
