import JavaFrontend.Batch.Schedule
import JavaFrontend.Proofs.Java.Parses
import Mathlib.Data.List.Basic
import Mathlib.Data.Nat.Find

/-!
What is left of a batch's results to chance. Whatever the schedule, the results that there are do
not depend on it, only which there are; and a text goes without one only if the flag was up when its
task began, which some result before must have seen to.
-/

namespace JavaFrontend.Batch

open List (Perm)
open scoped List

variable {α : Type} {parser : Parser α} {failFast : Bool} {texts : List SourceText}

namespace Phase

/-- The result if the flag has been seen to. -/
def settled? : Phase α → Option (FileResult α)
  | .settled result | .counted result _ | .reported result => some result
  | _ => none

/-- The result if the text was counted. -/
def counted? : Phase α → Option (FileResult α)
  | .counted result _ | .reported result => some result
  | _ => none

/-- The number that the task has drawn and not told anybody yet. -/
def number? : Phase α → Option Nat
  | .counted _ number => some number
  | _ => none

theorem result?_of_settled? {phase : Phase α} {result : FileResult α}
    (settled : phase.settled? = some result) : phase.result? = some result := by
  cases phase <;> simp_all [settled?, result?]

/-- A task that is over has reported its result, or it was skipped. -/
theorem cases_of_isOver {phase : Phase α} (ended : phase.isOver) :
    phase = .skipped ∨ ∃ result, phase = .reported result := by
  cases phase <;> simp_all [isOver]

end Phase

/-! ## One act -/

/-- The acts of a task, with the run that each of them leaves. -/
inductive Acts (parser : Parser α) (failFast : Bool) (texts : List SourceText) (run : Run α)
    (task : Nat) : Run α → Prop where
  | idle (ended : ∀ phase, run.phases[task]? = some phase → task < texts.length → phase.isOver) :
      Acts parser failFast texts run task run
  | skip (phase : run.phases[task]? = some .waiting) (stopped : run.stopped = true) :
      Acts parser failFast texts run task (run.enter task .skipped)
  | begin (phase : run.phases[task]? = some .waiting) (runs : run.stopped = false) :
      Acts parser failFast texts run task (run.enter task .started)
  | parse {source : SourceText} (text : texts[task]? = some source)
      (phase : run.phases[task]? = some .started) :
      Acts parser failFast texts run task (run.enter task (.parsed (parseOne parser source)))
  | settle {result : FileResult α} (phase : run.phases[task]? = some (.parsed result)) :
      Acts parser failFast texts run task
        { run.enter task (.settled result) with stopped := run.stopped || result.stops failFast }
  | count {result : FileResult α} (phase : run.phases[task]? = some (.settled result)) :
      Acts parser failFast texts run task
        { run.enter task (.counted result (run.completed + 1)) with completed := run.completed + 1 }
  | report {result : FileResult α} {number : Nat}
      (phase : run.phases[task]? = some (.counted result number)) :
      Acts parser failFast texts run task
        { run.enter task (.reported result) with
          reports := run.reports ++ [(number, texts.length)] }

variable (parser failFast texts) in
theorem acts_step (run : Run α) (task : Nat) :
    Acts parser failFast texts run task (run.step parser failFast texts task) := by
  unfold Run.step
  split
  · rename_i phase
    cases stopped : run.stopped with
    | true => exact .skip phase stopped
    | false => exact .begin phase stopped
  · rename_i text phase
    exact .parse text phase
  · rename_i phase
    exact .settle phase
  · rename_i phase
    exact .count phase
  · rename_i phase
    exact .report phase
  · rename_i waiting started parsed settled counted
    refine .idle fun phase here inside => ?_
    have text := List.getElem?_eq_getElem inside
    cases phase with
    | waiting => exact (waiting _ text here).elim
    | started => exact (started _ text here).elim
    | parsed result => exact (parsed _ result text here).elim
    | settled result => exact (settled _ result text here).elim
    | counted result number => exact (counted _ result number text here).elim
    | skipped => rfl
    | reported result => rfl

/-- What is true of the run at the start and is kept by every act is true after every schedule. -/
theorem after_induction (holds : List Nat → Run α → Prop) (start : holds [] (.start texts))
    (step : ∀ schedule run task next, holds schedule run →
      Acts parser failFast texts run task next → holds (schedule ++ [task]) next)
    (schedule : List Nat) : holds schedule (after parser failFast texts schedule) := by
  induction schedule using List.reverseRecOn with
  | nil => exact start
  | append_singleton schedule task ih =>
    rw [after, List.foldl_concat]
    exact step _ _ _ _ ih (acts_step ..)

theorem after_append (earlier later : List Nat) :
    after parser failFast texts (earlier ++ later) =
      later.foldl (Run.step parser failFast texts) (after parser failFast texts earlier) := by
  rw [after, List.foldl_append, after]

theorem after_concat (schedule : List Nat) (task : Nat) :
    after parser failFast texts (schedule ++ [task]) =
      (after parser failFast texts schedule).step parser failFast texts task := by
  rw [after_append, List.foldl_cons, List.foldl_nil]

/-! ## What every run keeps -/

private theorem append_swap {β : Type} (first second third : List β) :
    first ++ second ++ third ~ first ++ third ++ second := by
  rw [List.append_assoc, List.append_assoc]
  exact List.perm_append_comm.append_left _

namespace Run

variable {β : Type} {run : Run α} {task : Nat} {old : Phase α}

/-- What a task enters changes nothing that is known of the others. -/
theorem part_enter (part : Phase α → Option β) (here : run.phases[task]? = some old)
    (phase : Phase α) (other : Nat) :
    (run.enter task phase).phases[other]?.bind part =
      if other = task then part phase else run.phases[other]?.bind part := by
  rw [enter]
  by_cases same : other = task
  · subst same
    simp [List.getElem?_set_self', here]
  · rw [List.getElem?_set_ne (Ne.symm same), if_neg same]

/-- What a task enters changes nothing that is known of itself, where it says no other than before. -/
theorem part_enter_of_eq (part : Phase α → Option β) (here : run.phases[task]? = some old)
    (phase : Phase α) (same : part phase = part old) (other : Nat) :
    (run.enter task phase).phases[other]?.bind part = run.phases[other]?.bind part := by
  rw [part_enter part here]
  split
  · subst other
    rw [here, same, Option.bind_some]
  · rfl

private theorem perm_filterMap_set {β γ : Type} (part : β → Option γ) {list : List β} {index : Nat}
    {old : β} (new : β) (here : list[index]? = some old) :
    ((list.set index new).filterMap part ++ (part old).toList).Perm
      (list.filterMap part ++ (part new).toList) := by
  induction list generalizing index with
  | nil => simp at here
  | cons head rest ih =>
    cases index with
    | zero =>
      obtain rfl : head = old := by simpa using here
      have first (item : β) :
          (item :: rest).filterMap part = (part item).toList ++ rest.filterMap part := by
        cases here : part item <;> simp [here]
      rw [List.set_cons_zero, first, first]
      exact List.perm_append_comm.trans (List.append_assoc .. ▸ append_swap _ _ _)
    | succ index =>
      have step := ih (by simpa using here)
      cases first : part head with
      | none => simpa [first] using step
      | some value => simpa [first] using step.cons value

/-- All that is known of the tasks, but for what the one that acts says now instead of before. -/
theorem perm_enter (part : Phase α → Option β) (here : run.phases[task]? = some old)
    (phase : Phase α) :
    (run.enter task phase).phases.filterMap part ++ (part old).toList ~
      run.phases.filterMap part ++ (part phase).toList :=
  perm_filterMap_set part phase here

end Run

/-- What a run is like at any time. -/
structure Consistent (parser : Parser α) (failFast : Bool) (texts : List SourceText)
    (run : Run α) : Prop where
  /-- There is a task for each text. -/
  length : run.phases.length = texts.length
  /-- Whatever a task has for a result is that of its text alone. -/
  alone : ∀ (task : Nat) (result : FileResult α), run.result? task = some result →
    (texts.map (parseOne parser))[task]? = some result
  /-- The flag is up just if a task had cause to raise it and did. -/
  flag : run.stopped = true ↔ ∃ (task : Nat) (result : FileResult α),
    run.phases[task]?.bind Phase.settled? = some result ∧ result.stops failFast = true
  /-- As many were counted as the counter says. -/
  completed : (run.phases.filterMap Phase.counted?).length = run.completed
  /-- The numbers up to the counter's are those that are still to be told, and those that were. -/
  numbers : run.phases.filterMap Phase.number? ++ run.reports.map Prod.fst ~
    List.range' 1 run.completed
  /-- It is always told how many texts there are. -/
  total : ∀ report ∈ run.reports, report.2 = texts.length

namespace Consistent

theorem start : Consistent parser failFast texts (.start texts) := by
  have waiting (task : Nat) {β : Type} (part : Phase α → Option β) (silent : part .waiting = none) :
      (Run.start texts).phases[task]?.bind part = none := by
    rw [Run.start, List.getElem?_map]
    cases texts[task]? <;> simp [silent]
  exact {
    length := by simp [Run.start]
    alone := fun task result found => by
      rw [Run.result?, waiting task _ rfl] at found
      cases found
    flag := iff_of_false (by simp [Run.start]) fun ⟨task, result, settled, _⟩ => by
      rw [waiting task _ rfl] at settled
      cases settled
    completed := by simp [Run.start, Phase.counted?]
    numbers := by simp [Run.start, Phase.number?]
    total := by simp [Run.start] }

/-! What an act enters for a task that was at `old`, and what is kept of each sentence by it. -/

section Enter

variable {run : Run α} {task : Nat} {old phase : Phase α}

private theorem length_enter (consistent : Consistent parser failFast texts run) :
    (run.enter task phase).phases.length = texts.length := by
  rw [← consistent.length, Run.enter, List.length_set]

private theorem alone_enter (consistent : Consistent parser failFast texts run)
    (here : run.phases[task]? = some old)
    (result : ∀ result, phase.result? = some result →
      (texts.map (parseOne parser))[task]? = some result) (other : Nat) (found : FileResult α)
    (has : (run.enter task phase).result? other = some found) :
    (texts.map (parseOne parser))[other]? = some found := by
  rw [Run.result?, Run.part_enter _ here] at has
  split at has
  · subst other
    exact result found has
  · exact consistent.alone other found has

private theorem alone_enter_of_eq (consistent : Consistent parser failFast texts run)
    (here : run.phases[task]? = some old) (same : phase.result? = old.result?) (other : Nat)
    (found : FileResult α) (has : (run.enter task phase).result? other = some found) :
    (texts.map (parseOne parser))[other]? = some found := by
  rw [Run.result?, Run.part_enter_of_eq _ here _ same] at has
  exact consistent.alone other found has

private theorem flag_enter (consistent : Consistent parser failFast texts run)
    (here : run.phases[task]? = some old) (same : phase.settled? = old.settled?) :
    run.stopped = true ↔ ∃ (task' : Nat) (result : FileResult α),
      (run.enter task phase).phases[task']?.bind Phase.settled? = some result ∧
        result.stops failFast = true := by
  simpa only [Run.part_enter_of_eq _ here _ same] using consistent.flag

private theorem completed_enter (consistent : Consistent parser failFast texts run)
    (here : run.phases[task]? = some old) (same : phase.counted? = old.counted?) :
    ((run.enter task phase).phases.filterMap Phase.counted?).length = run.completed := by
  have perm := Run.perm_enter Phase.counted? here phase
  rw [same, List.perm_append_right_iff] at perm
  rw [perm.length_eq, consistent.completed]

private theorem numbers_enter (consistent : Consistent parser failFast texts run)
    (here : run.phases[task]? = some old) (same : phase.number? = old.number?) :
    (run.enter task phase).phases.filterMap Phase.number? ++ run.reports.map Prod.fst ~
      List.range' 1 run.completed := by
  have perm := Run.perm_enter Phase.number? here phase
  rw [same, List.perm_append_right_iff] at perm
  exact (perm.append_right _).trans consistent.numbers

/-- An act after which nothing is known of the task but perhaps its result. -/
private theorem enter (consistent : Consistent parser failFast texts run)
    (here : run.phases[task]? = some old)
    (result : ∀ result, phase.result? = some result →
      (texts.map (parseOne parser))[task]? = some result)
    (settled : phase.settled? = old.settled?) (counted : phase.counted? = old.counted?)
    (number : phase.number? = old.number?) :
    Consistent parser failFast texts (run.enter task phase) where
  length := consistent.length_enter
  alone := consistent.alone_enter here result
  flag := consistent.flag_enter here settled
  completed := consistent.completed_enter here counted
  numbers := consistent.numbers_enter here number
  total := consistent.total

end Enter

theorem step {run next : Run α} {task : Nat} (consistent : Consistent parser failFast texts run)
    (acts : Acts parser failFast texts run task next) :
    Consistent parser failFast texts next := by
  cases acts with
  | idle => exact consistent
  | skip phase => exact consistent.enter phase (by simp [Phase.result?]) rfl rfl rfl
  | begin phase => exact consistent.enter phase (by simp [Phase.result?]) rfl rfl rfl
  | parse text phase =>
    refine consistent.enter phase (fun result found => ?_) rfl rfl rfl
    rw [List.getElem?_map, text]
    exact found
  | @settle result phase =>
    refine ⟨consistent.length_enter, consistent.alone_enter_of_eq phase rfl, ?_,
      consistent.completed_enter phase rfl, consistent.numbers_enter phase rfl, consistent.total⟩
    have entered (other : Nat) : (run.enter task (.settled result)).phases[other]?.bind
        Phase.settled? = if other = task then some result else
          run.phases[other]?.bind Phase.settled? := Run.part_enter _ phase _ _
    simp only [Bool.or_eq_true, consistent.flag, entered]
    constructor
    · rintro (⟨other, found, settled, stops⟩ | stops)
      · refine ⟨other, found, ?_, stops⟩
        rw [if_neg, settled]
        rintro rfl
        simp [phase, Phase.settled?] at settled
      · exact ⟨task, result, if_pos rfl, stops⟩
    · rintro ⟨other, found, settled, stops⟩
      split at settled
      · cases settled
        exact .inr stops
      · exact .inl ⟨other, found, settled, stops⟩
  | @count result phase =>
    refine ⟨consistent.length_enter, consistent.alone_enter_of_eq phase rfl,
      consistent.flag_enter phase rfl, ?_, ?_, consistent.total⟩
    · have perm := Run.perm_enter Phase.counted? phase (.counted result (run.completed + 1))
      simpa [Phase.counted?, consistent.completed] using perm.length_eq
    · have drawn : (run.enter task (.counted result (run.completed + 1))).phases.filterMap
          Phase.number? ~ run.phases.filterMap Phase.number? ++ [run.completed + 1] := by
        rw [← List.append_nil (List.filterMap ..)]
        exact Run.perm_enter Phase.number? phase _
      calc _ ~ run.phases.filterMap Phase.number? ++ [run.completed + 1] ++
            run.reports.map Prod.fst := drawn.append_right _
        _ ~ run.phases.filterMap Phase.number? ++ run.reports.map Prod.fst ++
            [run.completed + 1] := append_swap _ _ _
        _ ~ List.range' 1 run.completed ++ [run.completed + 1] := consistent.numbers.append_right _
        _ = List.range' 1 (run.completed + 1) := by
            rw [List.range'_concat, Nat.one_mul, Nat.add_comm 1]
  | @report result number phase =>
    refine ⟨consistent.length_enter, consistent.alone_enter_of_eq phase rfl,
      consistent.flag_enter phase rfl, consistent.completed_enter phase rfl, ?_, ?_⟩
    · have told : (run.enter task (.reported result)).phases.filterMap Phase.number? ++ [number] ~
          run.phases.filterMap Phase.number? := by
        rw [← List.append_nil (run.phases.filterMap _)]
        exact Run.perm_enter Phase.number? phase _
      rw [List.map_append, List.map_singleton, ← List.append_assoc]
      exact (append_swap _ _ _).trans ((told.append_right _).trans consistent.numbers)
    · intro report member
      rcases List.mem_append.mp member with member | member
      · exact consistent.total report member
      · rw [List.mem_singleton.mp member]

end Consistent

theorem consistent_after (parser : Parser α) (failFast : Bool) (texts : List SourceText)
    (schedule : List Nat) :
    Consistent parser failFast texts (after parser failFast texts schedule) :=
  after_induction (fun _ => Consistent parser failFast texts) .start
    (fun _ _ _ _ consistent acts => consistent.step acts) schedule

/-! ## What stays as it is -/

/-- The tasks that do not act stay where they are. -/
theorem Acts.phases_ne {run next : Run α} {task other : Nat}
    (acts : Acts parser failFast texts run task next) (differs : other ≠ task) :
    next.phases[other]? = run.phases[other]? := by
  cases acts with
  | idle => rfl
  | skip | begin | parse | settle | count | report => exact List.getElem?_set_ne differs.symm

/-- Results are not taken back. -/
theorem Acts.result?_of_some {run next : Run α} {task other : Nat} {result : FileResult α}
    (acts : Acts parser failFast texts run task next) (found : run.result? other = some result) :
    next.result? other = some result := by
  cases acts with
  | idle => exact found
  | skip phase | begin phase | parse _ phase =>
    rw [Run.result?, Run.part_enter _ phase, if_neg]
    · exact found
    · rintro rfl
      simp [Run.result?, phase, Phase.result?] at found
  | @settle result phase =>
    exact (Run.part_enter_of_eq Phase.result? phase (.settled result) rfl other).trans found
  | @count result phase =>
    exact (Run.part_enter_of_eq Phase.result? phase (.counted result _) rfl other).trans found
  | @report result _ phase =>
    exact (Run.part_enter_of_eq Phase.result? phase (.reported result) rfl other).trans found

/-- A task that is over stays where it is. -/
theorem Acts.phases_of_isOver {run next : Run α} {task other : Nat} {phase : Phase α}
    (acts : Acts parser failFast texts run task next) (here : run.phases[other]? = some phase)
    (ended : phase.isOver) : next.phases[other]? = some phase := by
  by_cases same : other = task
  · subst same
    cases acts with
    | idle => exact here
    | skip found | begin found | parse _ found | settle found | count found | report found =>
      rw [found, Option.some_inj] at here
      subst here
      cases ended
  · rw [acts.phases_ne same, here]

/-- What an act keeps is kept by a schedule. -/
theorem after_append_induction (holds : Run α → Prop) {earlier : List Nat}
    (first : holds (after parser failFast texts earlier)) (later : List Nat)
    (step : ∀ run task next, task ∈ later → holds run →
      Acts parser failFast texts run task next → holds next) :
    holds (after parser failFast texts (earlier ++ later)) := by
  induction later using List.reverseRecOn with
  | nil => rwa [List.append_nil]
  | append_singleton later task ih =>
    rw [← List.append_assoc, after_concat]
    refine step _ task _ (by simp) (ih fun run other next member => ?_) (acts_step ..)
    exact step run other next (List.mem_append_left _ member)

variable (parser failFast texts) in
/-- A task that a schedule leaves out stays where it is. -/
theorem phases_of_notMem (earlier : List Nat) {task : Nat} {later : List Nat} (out : task ∉ later) :
    (after parser failFast texts (earlier ++ later)).phases[task]? =
      (after parser failFast texts earlier).phases[task]? :=
  after_append_induction (fun run => run.phases[task]? = _) rfl later
    fun run other next member same acts => by
      rw [acts.phases_ne (ne_of_mem_of_not_mem member out).symm, same]

/-- A task that does not act waits. -/
theorem waiting_of_notMem {schedule : List Nat} {task : Nat} (inside : task < texts.length)
    (out : task ∉ schedule) :
    (after parser failFast texts schedule).phases[task]? = some .waiting := by
  have stays := phases_of_notMem parser failFast texts [] out
  rw [List.nil_append] at stays
  rw [stays]
  simp [after, Run.start, inside]

theorem mem_of_result? {schedule : List Nat} {task : Nat} {result : FileResult α}
    (found : (after parser failFast texts schedule).result? task = some result) :
    task ∈ schedule := by
  by_contra out
  have inside : task < texts.length := by
    have known := (consistent_after parser failFast texts schedule).alone task result found
    simpa using (List.getElem?_eq_some_iff.mp known).1
  simp [Run.result?, waiting_of_notMem inside out, Phase.result?] at found

/-- A task is skipped only if it saw the flag up when it first acted. -/
theorem stopped_of_skipped {schedule : List Nat} {task : Nat}
    (skipped : (after parser failFast texts schedule).phases[task]? = some .skipped) :
    ∃ earlier later, schedule = earlier ++ task :: later ∧
      (after parser failFast texts earlier).phases[task]? = some .waiting ∧
      (after parser failFast texts earlier).stopped = true := by
  induction schedule using List.reverseRecOn with
  | nil => simp [after, Run.start, List.getElem?_replicate] at skipped
  | append_singleton schedule last ih =>
    by_cases before : (after parser failFast texts schedule).phases[task]? = some .skipped
    · obtain ⟨earlier, later, rfl, found⟩ := ih before
      exact ⟨earlier, later ++ [last], by simp, found⟩
    have acts := acts_step parser failFast texts (after parser failFast texts schedule) last
    rw [after_concat] at skipped
    by_cases same : task = last
    · subst same
      refine ⟨schedule, [], rfl, ?_⟩
      generalize Run.step .. = next at acts skipped
      cases acts with
      | idle => exact absurd skipped before
      | skip phase stopped => exact ⟨phase, stopped⟩
      | begin phase | parse _ phase | settle phase | count phase | report phase =>
        simp [Run.enter, List.getElem?_set_self', phase] at skipped
    · rw [acts.phases_ne same] at skipped
      exact absurd skipped before

/-- Somebody raised the flag: a text whose result stops the batch was parsed. -/
theorem exists_stops_of_stopped {schedule : List Nat}
    (stopped : (after parser failFast texts schedule).stopped = true) :
    ∃ other result, (after parser failFast texts schedule).result? other = some result ∧
      result.stops failFast = true := by
  obtain ⟨other, result, settled, stops⟩ :=
    (consistent_after parser failFast texts schedule).flag.mp stopped
  obtain ⟨phase, here, settled⟩ := Option.bind_eq_some_iff.mp settled
  exact ⟨other, result, by rw [Run.result?, here]; exact Phase.result?_of_settled? settled, stops⟩

/-- A task that has a result keeps it to the end of the schedule. -/
theorem result?_append {earlier : List Nat} (later : List Nat) {task : Nat} {result : FileResult α}
    (found : (after parser failFast texts earlier).result? task = some result) :
    (after parser failFast texts (earlier ++ later)).result? task = some result :=
  after_append_induction (fun run => run.result? task = some result) found later
    fun _ _ _ _ found acts => acts.result?_of_some found

/-- A task that is over stays so to the end of the schedule. -/
theorem phases_append_of_isOver {earlier : List Nat} (later : List Nat) {task : Nat}
    {phase : Phase α} (here : (after parser failFast texts earlier).phases[task]? = some phase)
    (ended : phase.isOver) :
    (after parser failFast texts (earlier ++ later)).phases[task]? = some phase :=
  after_append_induction (fun run => run.phases[task]? = some phase) here later
    fun _ _ _ _ here acts => acts.phases_of_isOver here ended

/-! ## Every schedule is finished in time -/

/-- How many acts are left to a task. -/
def Phase.left : Phase α → Nat
  | .waiting => 5
  | .started => 4
  | .parsed _ => 3
  | .settled _ => 2
  | .counted _ _ => 1
  | .skipped | .reported _ => 0

theorem Phase.isOver_of_left {phase : Phase α} (none : phase.left = 0) : phase.isOver := by
  cases phase <;> simp_all [left, isOver]

theorem Phase.left_of_isOver {phase : Phase α} (ended : phase.isOver) : phase.left = 0 := by
  cases phase <;> simp_all [left, isOver]

theorem Acts.left_le {run next : Run α} {task : Nat} {count : Nat}
    (acts : Acts parser failFast texts run task next)
    (inside : task < texts.length)
    (left : ∀ phase, run.phases[task]? = some phase → phase.left ≤ 5 - count) (phase : Phase α)
    (here : next.phases[task]? = some phase) : phase.left ≤ 5 - (count + 1) := by
  cases acts with
  | idle ended => rw [Phase.left_of_isOver (ended phase here inside)]; exact Nat.zero_le _
  | skip found | begin found | parse _ found | settle found | count found | report found =>
    have before := left _ found
    obtain rfl : _ = phase := by simpa [Run.enter, List.getElem?_set_self', found] using here
    simp only [Phase.left] at before ⊢
    omega

/-- Each act takes a task further, until it is over. -/
theorem left_after (schedule : List Nat) {task : Nat} (inside : task < texts.length)
    (phase : Phase α) (here : (after parser failFast texts schedule).phases[task]? = some phase) :
    phase.left ≤ 5 - schedule.count task := by
  revert phase
  refine after_induction (fun schedule run => ∀ phase, run.phases[task]? = some phase →
    phase.left ≤ 5 - schedule.count task) (fun phase here => ?_)
    (fun schedule run last next left acts phase here => ?_) schedule
  · obtain ⟨-, rfl⟩ := by simpa [Run.start, List.getElem?_replicate] using here
    rfl
  · rw [List.count_append, List.count_singleton]
    by_cases same : last = task
    · subst same
      rw [beq_self_eq_true, if_pos rfl]
      exact acts.left_le inside left phase here
    · rw [acts.phases_ne (Ne.symm same)] at here
      rw [if_neg (by simpa using same), Nat.add_zero]
      exact left phase here

/-- A schedule in which each task comes five times finishes the batch, however it mixes them. -/
theorem isComplete_of_count {schedule : List Nat}
    (often : ∀ task < texts.length, 5 ≤ schedule.count task) :
    (after parser failFast texts schedule).IsComplete := by
  intro phase member
  obtain ⟨task, here⟩ := List.mem_iff_getElem?.mp member
  have inside : task < texts.length := by
    rw [← (consistent_after parser failFast texts schedule).length]
    exact (List.getElem?_eq_some_iff.mp here).1
  have left := left_after schedule inside phase here
  have enough := often task inside
  exact Phase.isOver_of_left (by omega)

/-! ## What is left of a batch -/

private theorem filterMap_sublist {β γ : Type} (part : β → Option γ) (list : List β)
    (all : List γ) (length : list.length = all.length)
    (same : ∀ (index : Nat) (value : γ), list[index]?.bind part = some value →
      all[index]? = some value) :
    (list.filterMap part).Sublist all := by
  induction list generalizing all with
  | nil => simp
  | cons item rest ih =>
    cases all with
    | nil => simp at length
    | cons first all =>
      have tail := ih all (by simpa using length) fun index value found =>
        by simpa using same (index + 1) value (by simpa using found)
      cases value : part item with
      | none => simpa [value] using tail.cons first
      | some value' =>
        obtain rfl : first = value' := by simpa using same 0 value' (by simpa using value)
        simpa [value] using tail.cons_cons first

/-- The results that there are stand in the order of the texts. -/
theorem results_sublist (schedule : List Nat) :
    (after parser failFast texts schedule).results.Sublist (texts.map (parseOne parser)) := by
  have consistent := consistent_after parser failFast texts schedule
  exact filterMap_sublist _ _ _ (by rw [consistent.length, List.length_map]) consistent.alone

theorem Run.mem_results {run : Run α} {result : FileResult α} :
    result ∈ run.results ↔ ∃ task, run.result? task = some result := by
  simp only [results, List.mem_filterMap, result?, Option.bind_eq_some_iff]
  constructor
  · rintro ⟨phase, member, found⟩
    obtain ⟨task, here⟩ := List.mem_iff_getElem?.mp member
    exact ⟨task, phase, here, found⟩
  · rintro ⟨task, phase, here, found⟩
    exact ⟨phase, List.mem_of_getElem? here, found⟩

section Complete

variable {schedule : List Nat} (complete : (after parser failFast texts schedule).IsComplete)
include complete

/-- A text has no result only if one that stops the batch was there when its task began. -/
theorem exists_stops_of_missing {task : Nat} (inside : task < texts.length)
    (missing : (after parser failFast texts schedule).result? task = none) :
    ∃ earlier later, schedule = earlier ++ task :: later ∧
      (after parser failFast texts earlier).phases[task]? = some .waiting ∧
      ∃ other result, (after parser failFast texts earlier).result? other = some result ∧
        result.stops failFast = true := by
  rw [← (consistent_after parser failFast texts schedule).length] at inside
  have here := List.getElem?_eq_getElem inside
  rcases Phase.cases_of_isOver (complete _ (List.getElem_mem inside)) with skipped | ⟨_, reported⟩
  · obtain ⟨earlier, later, split, waiting, stopped⟩ :=
      stopped_of_skipped (here.trans (by rw [skipped]))
    exact ⟨earlier, later, split, waiting, exists_stops_of_stopped stopped⟩
  · simp [Run.result?, here, reported, Phase.result?] at missing

/-- Without a text that stops the batch, none is missing. -/
theorem results_of_clean
    (clean : ∀ result ∈ texts.map (parseOne parser), result.stops failFast = false) :
    (after parser failFast texts schedule).results = texts.map (parseOne parser) := by
  have consistent := consistent_after parser failFast texts schedule
  refine (results_sublist schedule).eq_of_length ?_
  rw [List.length_map, ← consistent.length, Run.results, List.filterMap_length_eq_length]
  intro phase member
  obtain ⟨task, here⟩ := List.mem_iff_getElem?.mp member
  by_contra missing
  have inside : task < texts.length := by
    rw [← consistent.length]
    exact (List.getElem?_eq_some_iff.mp here).1
  obtain ⟨earlier, -, -, -, other, result, found, stops⟩ :=
    exists_stops_of_missing complete inside (by simpa [Run.result?, here] using missing)
  have known := (consistent_after parser failFast texts earlier).alone other result found
  rw [clean result (List.mem_of_getElem? known)] at stops
  cases stops

/-- With a text that stops the batch, there is the result of such a text. -/
theorem exists_stops_in_results
    (stopping : ∃ result ∈ texts.map (parseOne parser), result.stops failFast = true) :
    ∃ result ∈ (after parser failFast texts schedule).results, result.stops failFast = true := by
  obtain ⟨result, member, stops⟩ := stopping
  obtain ⟨task, here⟩ := List.mem_iff_getElem?.mp member
  cases found : (after parser failFast texts schedule).result? task with
  | some own =>
    have known := (consistent_after parser failFast texts schedule).alone task own found
    obtain rfl : own = result := Option.some_inj.mp (known.symm.trans here)
    exact ⟨own, Run.mem_results.mpr ⟨task, found⟩, stops⟩
  | none =>
    have inside : task < texts.length := by
      simpa using (List.getElem?_eq_some_iff.mp here).1
    obtain ⟨earlier, later, rfl, -, other, result, found, stops⟩ :=
      exists_stops_of_missing complete inside found
    exact ⟨result, Run.mem_results.mpr ⟨other, result?_append _ found⟩, stops⟩

/-- Whoever is told of the progress hears each number up to that of the results, once. -/
theorem reports_perm :
    (after parser failFast texts schedule).reports ~
      progress (after parser failFast texts schedule).results texts.length := by
  have consistent := consistent_after parser failFast texts schedule
  generalize after parser failFast texts schedule = run at complete consistent
  have silent : run.phases.filterMap Phase.number? = [] := by
    refine List.filterMap_eq_nil_iff.mpr fun phase member => ?_
    rcases Phase.cases_of_isOver (complete phase member) with rfl | ⟨_, rfl⟩ <;> rfl
  have counted : run.completed = run.results.length := by
    rw [← consistent.completed, Run.results]
    refine congrArg _ (List.filterMap_congr fun phase member => ?_)
    rcases Phase.cases_of_isOver (complete phase member) with rfl | ⟨_, rfl⟩ <;> rfl
  have numbers := consistent.numbers
  rw [silent, List.nil_append, counted] at numbers
  have told : (run.reports.map Prod.fst).map (fun number => (number, texts.length)) =
      run.reports := by
    conv_rhs => rw [← List.map_id run.reports]
    rw [List.map_map]
    refine List.map_congr_left fun report member => ?_
    rw [Function.comp_apply, ← consistent.total report member]
    rfl
  rw [← told, progress]
  refine (numbers.map _).trans (.of_eq ?_)
  rw [List.range'_eq_map_range, List.map_map]
  exact List.map_congr_left fun number _ => by rw [Function.comp_apply, Nat.add_comm]

end Complete

/-! ## One worker -/

/-- One after the other, the texts give the results up to the first that stops the batch. -/
theorem parse_eq_append (parser : Parser α) (failFast : Bool) (texts : List SourceText) :
    Batch.parse parser failFast texts =
      (texts.map (parseOne parser)).takeWhile (fun result => !result.stops failFast) ++
        ((texts.map (parseOne parser)).find? (·.stops failFast)).toList := by
  induction texts with
  | nil => rfl
  | cons source rest ih =>
    rw [Batch.parse, List.map_cons, List.takeWhile_cons, List.find?_cons]
    cases stops : (parseOne parser source).stops failFast with
    | true => simp
    | false => simp [ih]

private theorem filterMap_eq_parse (part : β → Option (FileResult α)) (list : List β)
    (texts : List SourceText) (length : list.length = texts.length)
    (before : ∀ (index : Nat), (∀ earlier < index, ∀ result,
      (texts.map (parseOne parser))[earlier]? = some result → result.stops failFast = false) →
        list[index]?.bind part = (texts.map (parseOne parser))[index]?)
    (behind : ∀ (index earlier : Nat) (result : FileResult α), earlier < index →
      (texts.map (parseOne parser))[earlier]? = some result → result.stops failFast = true →
        list[index]?.bind part = none) :
    list.filterMap part = Batch.parse parser failFast texts := by
  induction list generalizing texts with
  | nil =>
    obtain rfl : texts = [] := List.eq_nil_of_length_eq_zero length.symm
    rfl
  | cons item rest ih =>
    cases texts with
    | nil => cases length
    | cons source texts =>
      have first : part item = some (parseOne parser source) := by
        simpa using before 0 (by simp)
      rw [List.filterMap_cons, first, Batch.parse]
      cases stops : (parseOne parser source).stops failFast with
      | true =>
        have none : rest.filterMap part = [] := by
          refine List.filterMap_eq_nil_iff.mpr fun other member => ?_
          obtain ⟨index, here⟩ := List.mem_iff_getElem?.mp member
          simpa [here] using behind (index + 1) 0 _ (Nat.succ_pos _) (by simp) stops
        simp [none]
      | false =>
        have rest := ih texts (by simpa using length)
          (fun index clean => by
            have step := before (index + 1) fun earlier less result found => by
              cases earlier with
              | zero =>
                obtain rfl : _ = result := by simpa using found
                exact stops
              | succ earlier => exact clean earlier (by omega) result (by simpa using found)
            simpa using step)
          (fun index earlier result less found stops => by
            simpa using behind (index + 1) (earlier + 1) result (by omega) (by simpa using found)
              stops)
        simp [rest]

section Sorted

variable {schedule : List Nat} (complete : (after parser failFast texts schedule).IsComplete)
  (sorted : schedule.Pairwise (· ≤ ·))
include complete sorted

/-- One worker leaves out no text that has none before it which stops the batch. -/
theorem result?_of_clean {task : Nat}
    (clean : ∀ earlier < task, ∀ result, (texts.map (parseOne parser))[earlier]? = some result →
      result.stops failFast = false) :
    (after parser failFast texts schedule).result? task =
      (texts.map (parseOne parser))[task]? := by
  have consistent := consistent_after parser failFast texts schedule
  cases found : (after parser failFast texts schedule).result? task with
  | some result => exact (consistent.alone task result found).symm
  | none =>
    by_cases inside : task < texts.length
    · obtain ⟨earlier, later, rfl, waiting, other, result, held, stops⟩ :=
        exists_stops_of_missing complete inside found
      have ordered : other ≤ task :=
        (List.pairwise_append.mp sorted).2.2 other (mem_of_result? held) task List.mem_cons_self
      have differs : other ≠ task := by
        rintro rfl
        simp [Run.result?, waiting, Phase.result?] at held
      have known := (consistent_after parser failFast texts earlier).alone other result held
      rw [clean other (by omega) result known] at stops
      cases stops
    · rw [eq_comm, List.getElem?_eq_none_iff, List.length_map]
      omega

/-- One worker parses nothing behind a text that stops the batch. -/
theorem result?_of_stops {task other : Nat} {result : FileResult α} (behind : other < task)
    (known : (texts.map (parseOne parser))[other]? = some result)
    (stops : result.stops failFast = true) :
    (after parser failFast texts schedule).result? task = none := by
  -- The first text that stops the batch is parsed, so it has raised the flag by the time that
  -- the task begins.
  have exists_first : ∃ (first : Nat) (found : FileResult α),
      (texts.map (parseOne parser))[first]? = some found ∧ found.stops failFast = true :=
    ⟨other, result, known, stops⟩
  obtain ⟨found, known', stops'⟩ := Nat.find_spec exists_first
  have first_le : Nat.find exists_first ≤ other := Nat.find_min' _ ⟨result, known, stops⟩
  have clean : (after parser failFast texts schedule).result? (Nat.find exists_first) =
      (texts.map (parseOne parser))[Nat.find exists_first]? :=
    result?_of_clean complete sorted fun earlier less own held => by
      by_contra stops
      exact Nat.find_min exists_first less ⟨own, held, by simpa using stops⟩
  generalize Nat.find exists_first = first at known' first_le clean
  rw [known'] at clean
  by_contra present
  obtain ⟨own, held⟩ := Option.ne_none_iff_exists'.mp present
  obtain ⟨earlier, later, rfl, out⟩ := List.eq_append_cons_of_mem (mem_of_result? held)
  have inside : task < texts.length := by
    have own := (consistent_after parser failFast texts _).alone task own held
    simpa using (List.getElem?_eq_some_iff.mp own).1
  have waiting : (after parser failFast texts earlier).phases[task]? = some .waiting :=
    waiting_of_notMem inside out
  have done : first ∉ task :: later := fun member => by
    have ordered := (List.pairwise_append.mp sorted).2.1
    rcases List.mem_cons.mp member with same | member
    · omega
    · have := List.rel_of_pairwise_cons ordered member
      omega
  have stopped : (after parser failFast texts earlier).stopped = true := by
    obtain ⟨phase, here, result⟩ := Option.bind_eq_some_iff.mp clean
    have ended := complete phase (List.mem_of_getElem? here)
    rw [phases_of_notMem _ _ _ _ done] at here
    refine (consistent_after parser failFast texts earlier).flag.mpr ⟨first, found, ?_, stops'⟩
    rw [here, Option.bind_some]
    rcases Phase.cases_of_isOver ended with rfl | ⟨_, rfl⟩
    · cases result
    · exact result
  have skipped : (after parser failFast texts (earlier ++ [task])).phases[task]? =
      some .skipped := by
    have text := List.getElem?_eq_getElem inside
    rw [after_concat, Run.step, text, waiting]
    simp [stopped, Run.enter, List.getElem?_set_self', waiting]
  have stays := phases_append_of_isOver later skipped rfl
  rw [List.append_assoc, List.singleton_append] at stays
  simp [Run.result?, stays, Phase.result?] at held

/-- One worker that takes the texts in their order leaves the results up to the first that stops
the batch. -/
theorem results_of_sorted :
    (after parser failFast texts schedule).results = Batch.parse parser failFast texts :=
  filterMap_eq_parse Phase.result? _ texts (consistent_after parser failFast texts schedule).length
    (fun _ clean => result?_of_clean complete sorted clean)
    (fun _ _ _ behind known stops => result?_of_stops complete sorted behind known stops)

end Sorted

/-! ## Every schedule -/

/-- Whatever the order in which the tasks of a batch act, the results are those of the texts alone,
in the order of the texts. A text is missing only if one that stops the batch was parsed when its
task began: none is, if there is no such text, and if there is one, such a text is not missing. One
worker leaves the results up to the first that stops the batch. The numbers up to that of the
results are each told once. -/
theorem results_of_schedule (parser : Parser α) (failFast : Bool) (texts : List SourceText)
    (schedule : List Nat) (complete : (after parser failFast texts schedule).IsComplete) :
    let final := after parser failFast texts schedule
    let alone := texts.map (parseOne parser)
    final.results.Sublist alone ∧
    (∀ (task : Nat) (result : FileResult α), final.result? task = some result →
      alone[task]? = some result) ∧
    (∀ task < texts.length, final.result? task = none →
      ∃ earlier later, schedule = earlier ++ task :: later ∧
        (after parser failFast texts earlier).phases[task]? = some .waiting ∧
        ∃ other result, (after parser failFast texts earlier).result? other = some result ∧
          result.stops failFast = true) ∧
    ((∀ result ∈ alone, result.stops failFast = false) → final.results = alone) ∧
    ((∃ result ∈ alone, result.stops failFast = true) →
      ∃ result ∈ final.results, result.stops failFast = true) ∧
    (schedule.Pairwise (· ≤ ·) →
      final.results = Batch.parse parser failFast texts ∧
      final.results = alone.takeWhile (fun result => !result.stops failFast) ++
        (alone.find? (·.stops failFast)).toList) ∧
    final.reports ~ progress final.results texts.length := by
  refine ⟨results_sublist schedule, (consistent_after parser failFast texts schedule).alone,
    fun task inside missing => exists_stops_of_missing complete inside missing,
    results_of_clean complete, exists_stops_in_results complete, fun sorted => ?_,
    reports_perm complete⟩
  have results := results_of_sorted complete sorted
  exact ⟨results, results.trans (parse_eq_append parser failFast texts)⟩

/-- Two files whose tasks take turns. -/
theorem results_of_turns : ∃ parser : Parser Node, Java.unitParser = .ok parser ∧
    let texts : List SourceText :=
      [⟨⟨"A.java"⟩, "class A \x7b"⟩, ⟨⟨"B.java"⟩, "class B \x7b\x7d"⟩]
    let final := after parser true texts [0, 1, 0, 1, 0, 1, 0, 1, 0, 1]
    final.IsComplete ∧ final.results.Sublist (texts.map (parseOne parser)) ∧
      final.reports ~ progress final.results 2 := by
  obtain ⟨parser, made⟩ : ∃ parser : Parser Node, Java.unitParser = .ok parser := by
    obtain ⟨grammar, built⟩ := Java.Grammar.exists_build .units (by decide +kernel)
    refine ⟨.ofBuilder grammar (Java.Reduction.builder grammar), ?_⟩
    rw [Java.unitParser, Java.Grammar.forUnits, built]
    rfl
  refine ⟨parser, made, ?_⟩
  intro texts final
  have complete : final.IsComplete := isComplete_of_count (by decide)
  obtain ⟨sublist, -, -, -, -, -, reports⟩ := results_of_schedule _ _ _ _ complete
  exact ⟨complete, sublist, reports⟩

end JavaFrontend.Batch
