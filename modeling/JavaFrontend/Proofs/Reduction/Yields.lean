import JavaFrontend.Reduction.Operands

/-!
What a step of a reduction comes to if it does not fail, from what is known of its operands
(`Yields`). There is one rule for each way of asking for an operand.
-/

namespace JavaFrontend.OperandM

variable {α β : Type}

/-! ### Steps that did not fail -/

section Succeeded

variable {step : OperandM α} {go : α → OperandM β} {rule expected : String} {value : α}
  {select : Node → Option α} {nodes : List Node} {before after : Operands}

theorem ok_of_bind {last : β} (ran : (step >>= go).run before = (.ok last, after)) :
    ∃ value between, step.run before = (.ok value, between) ∧
      (go value).run between = (.ok last, after) := by
  change (ExceptT.bindCont go (step.run before).1).run (step.run before).2 = _ at ran
  rcases came : step.run before with ⟨_ | value, between⟩
  · rw [came] at ran
    cases ran
  · rw [came] at ran
    exact ⟨value, between, rfl, ran⟩

theorem ok_of_nextAs
    (ran : (nextAs expected select).run ⟨rule, nodes⟩ = (.ok value, after)) :
    ∃ node rest, nodes = node :: rest ∧ select node = some value ∧ after = ⟨rule, rest⟩ := by
  obtain ⟨node, between, took, chose⟩ := ok_of_bind ran
  cases nodes with
  | nil => cases took
  | cons first rest =>
    cases took
    unfold ofNode at chose
    cases chosen : select node with
    | none =>
      rw [chosen] at chose
      cases chose
    | some found =>
      rw [chosen] at chose
      cases chose
      exact ⟨node, rest, rfl, chosen, rfl⟩

theorem ok_of_take (ran : (take? select).run ⟨rule, nodes⟩ = (.ok (some value), after)) :
    ∃ node rest, nodes = node :: rest ∧ select node = some value ∧ after = ⟨rule, rest⟩ := by
  obtain ⟨head, between, looked, took⟩ := ok_of_bind ran
  cases looked
  cases nodes with
  | nil => cases took
  | cons first rest =>
    dsimp only [List.head?_cons, Option.bind_some] at took
    cases chosen : select first with
    | none =>
      rw [chosen] at took
      cases took
    | some found =>
      rw [chosen] at took
      cases took
      exact ⟨first, rest, rfl, chosen, rfl⟩

theorem ok_of_take_none (ran : (take? select).run ⟨rule, nodes⟩ = (.ok none, after)) :
    nodes.head?.bind select = none := by
  obtain ⟨head, between, looked, took⟩ := ok_of_bind ran
  cases looked
  dsimp only at took
  cases chosen : nodes.head?.bind select with
  | none => rfl
  | some found =>
    rw [chosen] at took
    obtain ⟨node, left, began, ended⟩ := ok_of_bind took
    cases ended

theorem ok_of_allAs {values : List α} {all : List Node}
    (ran : (allAs expected select all).run before = (.ok values, after)) :
    after = before ∧ ∀ node ∈ all, ∃ value ∈ values, select node = some value := by
  unfold allAs at ran
  induction all generalizing values after with
  | nil =>
    cases ran
    exact ⟨rfl, List.forall_mem_nil _⟩
  | cons node all ih =>
    rw [List.mapM_cons] at ran
    obtain ⟨value, between, first, more⟩ := ok_of_bind ran
    obtain ⟨others, between', second, last⟩ := ok_of_bind more
    unfold ofNode at first
    cases chosen : select node with
    | none =>
      rw [chosen] at first
      cases first
    | some found =>
      rw [chosen] at first
      cases first
      obtain ⟨rfl, each⟩ := ih second
      cases last
      refine ⟨rfl, List.forall_mem_cons.mpr ⟨⟨_, List.mem_cons_self, chosen⟩, ?_⟩⟩
      intro other among
      obtain ⟨value, member, same⟩ := each other among
      exact ⟨value, List.mem_cons_of_mem _ member, same⟩

end Succeeded

/-! ### What steps come to -/

/-- From operands of which each is as `Given` says, the step comes to a value as `After` says,
unless it fails, and leaves such operands. -/
def Yields (Given : Node → Prop) (After : α → Prop) (step : OperandM α) : Prop :=
  ∀ operands : Operands, (∀ node ∈ operands.items, Given node) →
    ∀ value left, step.run operands = (.ok value, left) →
      After value ∧ ∀ node ∈ left.items, Given node

namespace Yields

variable {Given : Node → Prop} {After : α → Prop} {Later : β → Prop} {step : OperandM α}
  {go : α → OperandM β} {value : α} {select : Node → Option α} {nodes : List Node}
  {expected : String}

theorem pure (after : After value) : Yields Given After (Pure.pure value) := by
  rintro operands given _ _ ⟨⟩
  exact ⟨after, given⟩

theorem bind (first : Yields Given After step)
    (then_ : ∀ value, After value → Yields Given Later (go value)) :
    Yields Given Later (step >>= go) := by
  intro operands given value left ran
  obtain ⟨value, between, began, ended⟩ := ok_of_bind ran
  obtain ⟨after, kept⟩ := first operands given value between began
  exact then_ value after between kept _ left ended

theorem mono {Weaker : α → Prop} (yields : Yields Given After step)
    (weaker : ∀ value, After value → Weaker value) : Yields Given Weaker step :=
  fun operands given value left ran =>
    (yields operands given value left ran).imp_left (weaker value)

theorem fail (reason : ReduceError) : Yields Given After (throw reason : OperandM α) := by
  rintro operands given _ _ ⟨⟩

theorem ite {condition : Prop} [Decidable condition] {yes no : OperandM α}
    (holds : Yields Given After yes) (fails : Yields Given After no) :
    Yields Given After (if condition then yes else no) := by
  split
  · exact holds
  · exact fails

theorem peek : Yields Given (fun node => ∀ found ∈ node, Given found) OperandM.peek := by
  rintro operands given _ _ ⟨⟩
  exact ⟨fun node among => given node (List.mem_of_head? among), given⟩

theorem next : Yields Given Given OperandM.next := by
  rintro ⟨rule, _ | ⟨node, nodes⟩⟩ given _ _ ⟨⟩
  exact List.forall_mem_cons.mp given

theorem rest : Yields Given (fun nodes => ∀ node ∈ nodes, Given node) OperandM.rest := by
  rintro operands given _ _ ⟨⟩
  exact ⟨given, fun _ among => absurd among List.not_mem_nil⟩

theorem takeUntil {stop : Node → Bool} :
    Yields Given (fun nodes => ∀ node ∈ nodes, Given node) (OperandM.takeUntil stop) := by
  rintro operands given _ _ ⟨⟩
  exact ⟨fun node among => given node ((List.takeWhile_prefix _).subset among),
    fun node among => given node ((List.dropWhile_suffix _).subset among)⟩

/-- What is so of all items of the operands is so of those that are left. -/
theorem items {Item : Node → Prop} : Yields (fun node => ∀ item ∈ node.items, Item item)
    (fun items => ∀ item ∈ items, Item item) OperandM.items :=
  .bind rest fun nodes each => .pure fun item member => by
    obtain ⟨node, among, inside⟩ := List.mem_flatMap.mp member
    exact each node (List.mem_filter.mp among).1 item inside

/-- To look at the operands changes nothing. -/
theorem look (answer : Operands → α) :
    Yields Given (fun _ => True) (do return answer (← get) : OperandM α) := by
  rintro operands given _ _ ⟨⟩
  exact ⟨trivial, given⟩

theorem mismatch (expected : String) (node : Node) :
    Yields Given After (OperandM.mismatch expected node : OperandM α) :=
  .bind (look (·.rule)) fun _ _ => .fail _

theorem ofNode {node : Node} (expected : String)
    (passes : ∀ value, select node = some value → After value) :
    Yields Given After (OperandM.ofNode expected select node) := by
  unfold OperandM.ofNode
  cases chosen : select node with
  | none => exact mismatch expected node
  | some value => exact .pure (passes value chosen)

theorem nextAs (expected : String)
    (passes : ∀ {node value}, select node = some value → Given node → After value) :
    Yields Given After (OperandM.nextAs expected select) :=
  .bind next fun _ given => .ofNode expected fun _ chosen => passes chosen given

theorem take? (passes : ∀ {node value}, select node = some value → Given node → After value) :
    Yields Given (fun value => ∀ taken ∈ value, After taken) (OperandM.take? select) := by
  refine .bind peek fun node given => ?_
  cases chosen : node.bind select with
  | none => exact .pure fun _ none => absurd none (by simp)
  | some value =>
    obtain ⟨node, rfl, chosen⟩ := Option.bind_eq_some_iff.mp chosen
    refine .bind next fun _ _ => .pure fun taken same => ?_
    cases same
    exact passes chosen (given node rfl)

theorem allAs (expected : String)
    (passes : ∀ node ∈ nodes, ∀ value, select node = some value → After value) :
    Yields Given (fun values => ∀ value ∈ values, After value)
      (OperandM.allAs expected select nodes) := by
  unfold OperandM.allAs
  induction nodes with
  | nil => exact .pure (List.forall_mem_nil _)
  | cons node nodes ih =>
    obtain ⟨here, later⟩ := List.forall_mem_cons.mp passes
    rw [List.mapM_cons]
    exact .bind (.ofNode expected here) fun _ after =>
      .bind (ih later) fun _ all => .pure (List.forall_mem_cons.mpr ⟨after, all⟩)

theorem and {Given' : Node → Prop} {After' : α → Prop} (one : Yields Given After step)
    (other : Yields Given' After' step) :
    Yields (fun node => Given node ∧ Given' node) (fun value => After value ∧ After' value)
      step := by
  intro operands given value left ran
  obtain ⟨after, kept⟩ := one operands (fun node among => (given node among).1) value left ran
  obtain ⟨after', kept'⟩ := other operands (fun node among => (given node among).2) value left ran
  exact ⟨⟨after, after'⟩, fun node among => ⟨kept node among, kept' node among⟩⟩

/-- What a reduction with the operands comes to. -/
theorem of_run {reduction : OperandM Node} {After : Node → Prop} {name : String} {node : Node}
    (yields : Yields Given After reduction) (given : ∀ node ∈ nodes, Given node)
    (ran : (reduction.run ⟨name, nodes⟩).1 = .ok node) : After node :=
  (yields ⟨name, nodes⟩ given node _ (Prod.ext ran rfl)).1

/-! #### Steps whose values do not matter -/

theorem asks : Yields Given (fun _ => True) (OperandM.nextAs expected select) :=
  .nextAs _ fun _ _ => trivial

theorem tries : Yields Given (fun _ => True) (OperandM.take? select) :=
  (Yields.take? fun _ _ => trivial).mono fun _ _ => trivial

theorem some_of_all (some : nodes ≠ []) :
    Yields Given (fun values => values ≠ []) (OperandM.allAs expected select nodes) := by
  intro operands given values left ran
  obtain ⟨rfl, each⟩ := ok_of_allAs ran
  obtain ⟨first, rest, rfl⟩ := List.exists_cons_of_ne_nil some
  obtain ⟨value, among, -⟩ := each first List.mem_cons_self
  exact ⟨List.ne_nil_of_mem among, given⟩

theorem all : Yields Given (fun _ => True) (OperandM.allAs expected select nodes) := by
  have each : ∀ node ∈ nodes, ∀ value, select node = some value → True := fun _ _ _ _ => trivial
  exact (Yields.allAs expected each).mono fun _ _ => trivial

theorem head_of_all {first : Node} :
    Yields Given
      (fun values => ∃ value others, values = value :: others ∧ select first = some value)
      (OperandM.allAs expected select (first :: nodes)) := by
  unfold OperandM.allAs
  rw [List.mapM_cons]
  exact .bind (.ofNode expected fun _ chosen => chosen) fun value chosen =>
    .bind all fun others _ => .pure ⟨value, others, rfl, chosen⟩

theorem repeats : Yields Given (fun _ => True) (OperandM.repetition expected select) :=
  .bind tries fun nodes _ => by
    cases nodes with
    | none => exact .pure trivial
    | some nodes => exact all

/-- Of operands of which nothing is known, any step leaves such. -/
theorem any (step : OperandM α) : Yields (fun _ => True) (fun _ => True) step :=
  fun _ _ _ _ _ => ⟨trivial, fun _ _ => trivial⟩

end Yields

end JavaFrontend.OperandM
