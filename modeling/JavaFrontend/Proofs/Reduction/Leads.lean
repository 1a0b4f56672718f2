import JavaFrontend.Proofs.Reduction.Yields

/-!
What a step of a reduction comes to if it begins with a certain operand and does not fail (`Leads`).
As soon as the first operand is consumed, only what is known of the others counts.
-/

namespace JavaFrontend.OperandM

variable {α β : Type}

/-- From the first operand and others of which each is as `Given` says, the step comes to a value as
`After` says, unless it fails, and leaves such operands. -/
def Leads (first : Node) (Given : Node → Prop) (After : α → Prop) (step : OperandM α) : Prop :=
  ∀ rule more, (∀ node ∈ more, Given node) → ∀ value left,
    step.run ⟨rule, first :: more⟩ = (.ok value, left) →
      After value ∧ ∀ node ∈ left.items, Given node

namespace Leads

variable {first : Node} {Given : Node → Prop} {After : α → Prop} {Later : β → Prop}
  {step : OperandM α} {go : α → OperandM β} {select : Node → Option α} {expected : String}

theorem bind (leads : Leads first Given After step)
    (then_ : ∀ value, After value → Yields Given Later (go value)) :
    Leads first Given Later (step >>= go) := by
  intro rule more given value left ran
  obtain ⟨middle, between, began, ended⟩ := ok_of_bind ran
  obtain ⟨after, kept⟩ := leads rule more given middle between began
  exact then_ middle after between kept value left ended

theorem mono {Weaker : α → Prop} (leads : Leads first Given After step)
    (weaker : ∀ value, After value → Weaker value) : Leads first Given Weaker step :=
  fun rule more given value left ran =>
    (leads rule more given value left ran).imp_left (weaker value)

theorem next : Leads first Given (· = first) OperandM.next := by
  rintro rule more given _ _ ⟨⟩
  exact ⟨rfl, given⟩

theorem nextAs : Leads first Given (fun value => select first = some value)
    (OperandM.nextAs expected select) :=
  .bind next fun _ same => .ofNode expected fun _ chosen => same ▸ chosen

/-- Where the first operand may be taken, either it is, or the rest begins with it. -/
theorem took {go : Option α → OperandM β}
    (taken : ∀ value, select first = some value → Yields Given Later (go (some value)))
    (stays : select first = none → Leads first Given Later (go none)) :
    Leads first Given Later (take? select >>= go) := by
  intro rule more given value left ran
  obtain ⟨middle, between, began, ended⟩ := ok_of_bind ran
  obtain ⟨head, _, looked, rest⟩ := ok_of_bind began
  cases looked
  dsimp only [List.head?_cons, Option.bind_some] at rest
  cases chosen : select first with
  | none =>
    rw [chosen] at rest
    cases rest
    exact stays chosen rule more given value left ended
  | some found =>
    rw [chosen] at rest
    cases rest
    exact taken found chosen ⟨rule, more⟩ given value left ended

/-- Where items that `select` selects may come, either the first operand consists of some, or the
rest begins with it. -/
theorem repeated {select : Node → Option α} {go : List α → OperandM β}
    (taken : ∀ values, values ≠ [] → Yields Given Later (go values))
    (stays : itemsIf select first = none → Leads first Given Later (go [])) :
    Leads first Given Later (repetition expected select >>= go) := by
  unfold repetition
  rw [bind_assoc]
  refine took (fun nodes chosen => ?_) fun none => ?_
  · have some : nodes ≠ [] := by
      unfold itemsIf at chosen
      split at chosen
      · cases chosen
      · split at chosen
        · cases chosen
          exact List.cons_ne_nil _ _
        · cases chosen
    exact (Yields.some_of_all some).bind taken
  · rw [pure_bind]
    exact stays none

/-- To look at the operands consumes none. -/
theorem looks {answer : Operands → α} (stays : ∀ value, Leads first Given Later (go value)) :
    Leads first Given Later ((do return answer (← get) : OperandM α) >>= go) := by
  intro rule more given value left ran
  obtain ⟨middle, between, began, ended⟩ := ok_of_bind ran
  cases began
  exact stays _ rule more given value left ended

theorem peeks {go : Option Node → OperandM β} (stays : Leads first Given Later (go (some first))) :
    Leads first Given Later (peek >>= go) := by
  intro rule more given value left ran
  obtain ⟨middle, between, began, ended⟩ := ok_of_bind ran
  cases began
  exact stays rule more given value left ended

theorem takeUntil {stop : Node → Bool} (goes : stop first = false) :
    Leads first Given (fun nodes => ∃ others, nodes = first :: others)
      (OperandM.takeUntil stop) := by
  rintro rule more given _ _ ⟨⟩
  refine ⟨⟨more.takeWhile (!stop ·), List.takeWhile_cons_of_pos (by simp [goes])⟩, ?_⟩
  dsimp only
  rw [List.dropWhile_cons_of_pos (by simp [goes])]
  exact fun node among => given node ((List.dropWhile_suffix _).subset among)

theorem items (own : first.isToken = false) :
    Leads first Given (fun items => ∃ others, items = first.items ++ others) OperandM.items := by
  rintro rule more given _ _ ⟨⟩
  have kept : (first :: more).filter (!·.isToken) = first :: more.filter (!·.isToken) :=
    List.filter_cons_of_pos (by simp [own])
  exact ⟨⟨_, (congrArg (List.flatMap Node.items) kept).trans List.flatMap_cons⟩,
    fun _ among => absurd among List.not_mem_nil⟩

theorem ite {condition : Prop} [Decidable condition] {yes no : OperandM α}
    (holds : Leads first Given After yes) (fails : Leads first Given After no) :
    Leads first Given After (if condition then yes else no) := by
  split
  · exact holds
  · exact fails

/-- What a reduction with the operands comes to. -/
theorem of_run {reduction : OperandM Node} {After : Node → Prop} {name : String} {node : Node}
    {more : List Node} (leads : Leads first Given After reduction)
    (given : ∀ node ∈ more, Given node)
    (ran : (reduction.run ⟨name, first :: more⟩).1 = .ok node) : After node :=
  (leads name more given node _ (Prod.ext ran rfl)).1

end Leads

end JavaFrontend.OperandM
