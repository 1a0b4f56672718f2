import JavaFrontend.Proofs.Reduction.Yields
import Mathlib.Algebra.GroupWithZero.Nat

/-!
What a step of a reduction comes to when its operands weigh no more than a budget in all. A step
takes what it takes from the front of the operands, so what two steps take one after the other
weighs no more than the budget together (`Spends`).
-/

namespace JavaFrontend.OperandM

variable {α β : Type} {step : OperandM α} {go : α → OperandM β} {value : α}
  {select : Node → Option α} {expected : String}

/-! ### The front of the operands -/

/-- Unless it fails, the step leaves the last of the operands. -/
def TakesFront (step : OperandM α) : Prop :=
  ∀ operands value left, step.run operands = (.ok value, left) → left.items <:+ operands.items

namespace TakesFront

theorem pure : TakesFront (Pure.pure value : OperandM α) := by
  rintro operands _ _ ⟨⟩
  exact List.suffix_rfl

theorem bind (first : TakesFront step) (then_ : ∀ value, TakesFront (go value)) :
    TakesFront (step >>= go) := by
  intro operands value left ran
  obtain ⟨middle, between, began, ended⟩ := ok_of_bind ran
  exact (then_ middle between value left ended).trans (first operands middle between began)

theorem next : TakesFront OperandM.next := by
  rintro ⟨rule, _ | ⟨node, nodes⟩⟩ _ _ ⟨⟩
  exact List.suffix_cons node nodes

theorem ofNode (node : Node) : TakesFront (OperandM.ofNode expected select node) := by
  unfold OperandM.ofNode
  cases select node with
  | none => rintro operands _ _ ⟨⟩
  | some value => exact .pure

theorem nextAs : TakesFront (OperandM.nextAs expected select) := .bind .next fun _ => .ofNode _

theorem take? : TakesFront (OperandM.take? select) := by
  have look : TakesFront OperandM.peek := by
    rintro operands _ _ ⟨⟩
    exact List.suffix_rfl
  refine .bind look fun node => ?_
  cases node.bind select with
  | none => exact .pure
  | some value => exact .bind .next fun _ => .pure

theorem allAs (nodes : List Node) : TakesFront (OperandM.allAs expected select nodes) := by
  unfold OperandM.allAs
  induction nodes with
  | nil => exact .pure
  | cons node nodes ih =>
    rw [List.mapM_cons]
    exact .bind (.ofNode node) fun _ => .bind ih fun _ => .pure

theorem repetition : TakesFront (OperandM.repetition expected select) := by
  refine .bind .take? fun nodes => ?_
  cases nodes with
  | none => exact .pure
  | some nodes => exact .allAs nodes

end TakesFront

/-! ### Budgets -/

/-- How much the nodes weigh in all. -/
def load (weight : Node → Nat) (nodes : List Node) : Nat := (nodes.map weight).sum

@[simp] theorem load_nil (weight : Node → Nat) : load weight [] = 0 := rfl

@[simp] theorem load_cons (weight : Node → Nat) (node : Node) (nodes : List Node) :
    load weight (node :: nodes) = weight node + load weight nodes := by
  simp [load]

@[simp] theorem load_append (weight : Node → Nat) (front back : List Node) :
    load weight (front ++ back) = load weight front + load weight back := by
  simp [load]

theorem le_load {weight : Node → Nat} {node : Node} {nodes : List Node} (among : node ∈ nodes) :
    weight node ≤ load weight nodes := by
  obtain ⟨front, back, rfl⟩ := List.append_of_mem among
  simp only [load_append, load_cons]
  omega

theorem load_le_of_suffix {weight : Node → Nat} {back nodes : List Node} (last : back <:+ nodes) :
    load weight back ≤ load weight nodes := by
  obtain ⟨front, rfl⟩ := last
  simp

/-- From operands of which each is as `Given` says, and which weigh no more than the budget, the
step comes to a value as `After` says of it and of the budget that is left for the operands that it
leaves, unless it fails. -/
def Spends (weight : Node → Nat) (Given : Node → Prop) (budget : Nat) (After : α → Nat → Prop)
    (step : OperandM α) : Prop :=
  ∀ operands : Operands, (∀ node ∈ operands.items, Given node) →
    load weight operands.items ≤ budget → ∀ value left, step.run operands = (.ok value, left) →
      ∃ rest, After value rest ∧ (∀ node ∈ left.items, Given node) ∧
        load weight left.items ≤ rest

namespace Spends

variable {weight : Node → Nat} {weigh : α → Nat} {Given : Node → Prop} {budget : Nat}
  {After : α → Nat → Prop} {Alone : α → Prop} {Later : β → Nat → Prop}

theorem pure (after : After value budget) :
    Spends weight Given budget After (Pure.pure value) := by
  rintro operands given within _ _ ⟨⟩
  exact ⟨budget, after, given, within⟩

theorem bind (first : Spends weight Given budget After step)
    (then_ : ∀ value rest, After value rest → Spends weight Given rest Later (go value)) :
    Spends weight Given budget Later (step >>= go) := by
  intro operands given within value left ran
  obtain ⟨middle, between, began, ended⟩ := ok_of_bind ran
  obtain ⟨rest, after, kept, afford⟩ := first operands given within middle between began
  exact then_ middle rest after between kept afford value left ended

/-- A step of which only the value matters leaves the whole budget. -/
theorem skip (yields : Yields Given Alone step) (front : TakesFront step)
    (then_ : ∀ value, Alone value → Spends weight Given budget Later (go value)) :
    Spends weight Given budget Later (step >>= go) := by
  have first : Spends weight Given budget (fun value rest => Alone value ∧ rest = budget) step := by
    intro operands given within value left ran
    obtain ⟨after, kept⟩ := yields operands given value left ran
    have less : load weight left.items ≤ load weight operands.items :=
      load_le_of_suffix (front operands value left ran)
    exact ⟨budget, ⟨after, rfl⟩, kept, Nat.le_trans less within⟩
  refine bind first ?_
  rintro value _ ⟨after, rfl⟩
  exact then_ value after

theorem ite {condition : Prop} [Decidable condition] {yes no : OperandM α}
    (holds : Spends weight Given budget After yes) (fails : Spends weight Given budget After no) :
    Spends weight Given budget After (if condition then yes else no) := by
  split
  · exact holds
  · exact fails

theorem nextAs (passes : ∀ {node value}, select node = some value → Given node →
      Alone value ∧ weigh value ≤ weight node) :
    Spends weight Given budget (fun value rest => Alone value ∧ weigh value + rest ≤ budget)
      (OperandM.nextAs expected select) := by
  rintro ⟨rule, nodes⟩ given within value left ran
  obtain ⟨node, rest, rfl, chosen, rfl⟩ := ok_of_nextAs ran
  obtain ⟨here, later⟩ := List.forall_mem_cons.mp given
  obtain ⟨alone, light⟩ := passes chosen here
  simp only [load_cons] at within
  exact ⟨load weight rest, ⟨alone, by omega⟩, later, Nat.le_refl _⟩

theorem take? (passes : ∀ {node value}, select node = some value → weigh value ≤ weight node) :
    Spends weight Given budget (fun taken rest => taken.elim 0 weigh + rest ≤ budget)
      (OperandM.take? select) := by
  rintro ⟨rule, nodes⟩ given within value left ran
  cases value with
  | none =>
    have last : left.items <:+ nodes := TakesFront.take? _ _ _ ran
    exact ⟨budget, by simp, fun node among => given node (last.subset among),
      Nat.le_trans (load_le_of_suffix last) within⟩
  | some value =>
    obtain ⟨node, rest, rfl, chosen, rfl⟩ := ok_of_take ran
    have light := passes chosen
    simp only [load_cons] at within
    refine ⟨load weight rest, ?_, (List.forall_mem_cons.mp given).2, Nat.le_refl _⟩
    simp only [Option.elim_some]
    omega

theorem mono {Weaker : α → Nat → Prop} (spends : Spends weight Given budget After step)
    (weaker : ∀ value rest, After value rest → Weaker value rest) :
    Spends weight Given budget Weaker step := by
  intro operands given within value left ran
  obtain ⟨rest, after, kept⟩ := spends operands given within value left ran
  exact ⟨rest, weaker value rest after, kept⟩

/-- What is so whatever the budget is so without one. -/
theorem yields (each : ∀ budget, Spends weight Given budget (fun value _ => Alone value) step) :
    Yields Given Alone step := by
  intro operands given value left ran
  obtain ⟨_, after, kept, -⟩ := each _ operands given (Nat.le_refl _) value left ran
  exact ⟨after, kept⟩

/-- What a reduction with the operands comes to. -/
theorem of_run {reduction : OperandM Node} {After : Node → Nat → Prop} {name : String}
    {nodes : List Node} {node : Node} (spends : Spends weight Given budget After reduction)
    (given : ∀ node ∈ nodes, Given node) (within : load weight nodes ≤ budget)
    (ran : (reduction.run ⟨name, nodes⟩).1 = .ok node) : ∃ rest, After node rest := by
  obtain ⟨rest, after, -⟩ := spends ⟨name, nodes⟩ given within node _ (Prod.ext ran rfl)
  exact ⟨rest, after⟩

end Spends

end JavaFrontend.OperandM
