import JavaFrontend.Java.Walk

/-!
Walks that are ended, and walks that leave something out, next to a walk over all of the tree. A
visitor that ends its walk with visit `n` pays the first `n` visits that it pays otherwise, and a
visitor that skips some visits pays those that are inside no visit it skips.
-/

namespace JavaFrontend.Java

variable {category : Category}

namespace Outline

variable {skips : VisitKind → Bool} {n : Nat} {around paid : List Visit}

/-- Notes down a visit, the latest first, and goes on past it if its kind is to be skipped, and
nowhere if it is visit number `stopAt`. -/
def recorder (skips : VisitKind → Bool) (stopAt : Option Nat) (visit : Visit)
    (paid : List Visit) : Step × List Visit :=
  (if stopAt = some (paid.length + 1) then .stop
    else if skips visit.kind then .skip
    else .descend,
   visit :: paid)

theorem record_eq (stopAt : Option Nat) (outline : Outline) :
    outline.record skips stopAt = ((outline.walk (recorder skips stopAt) []).1,
      (outline.walk (recorder skips stopAt) []).2.reverse) := rfl

/-! ### Walks that are ended -/

/-- What is paid, the latest first, if no more than `n` visits are, and whether they are. -/
def cut (n : Nat) (paid : List Visit) : Bool × List Visit :=
  (decide (n ≤ paid.length), paid.drop (paid.length - n))

theorem cut_of_lt (few : paid.length < n) : cut n paid = (false, paid) := by
  rw [cut, decide_eq_false (Nat.not_le_of_lt few), Nat.sub_eq_zero_of_le (Nat.le_of_lt few), List.drop_zero]

/-- What comes after visit `n` makes no difference. -/
theorem cut_append (many : n ≤ paid.length) (new : List Visit) : cut n (new ++ paid) = cut n paid := by
  have all : n ≤ (new ++ paid).length := by
    rw [List.length_append]
    omega
  rw [cut, cut, decide_eq_true many, decide_eq_true all, List.length_append,
    Nat.add_sub_assoc many, List.drop_append, Nat.add_sub_cancel_left,
    List.drop_of_length_le (Nat.le_add_right ..), List.nil_append]

/-- The first walk adds to what is paid and is not ended, and the second does as it does, but for
what comes after visit `n`. -/
def Cuts (n : Nat) (free stopped : List Visit → Bool × List Visit) : Prop :=
  ∀ paid, ∃ new, free paid = (false, new ++ paid) ∧
    (paid.length < n → stopped paid = cut n (new ++ paid))

/-- One visit after the other is paid or not as they are one inside the other. -/
theorem Cuts.enterAll {free stopped : List Visit → Bool × List Visit} (cuts : Cuts n free stopped)
    (visits : List Visit) :
    Cuts n (enterAll (recorder skips none) free visits)
      (enterAll (recorder skips (some n)) stopped visits) := by
  induction visits with
  | nil => exact cuts
  | cons visit visits ih =>
    intro paid
    -- What the first walk pays in this visit does not matter once the second is ended.
    obtain ⟨new, free, same⟩ : ∃ new,
        Outline.enterAll (recorder skips none) free (visit :: visits) paid =
          (false, new ++ visit :: paid) ∧
        ((visit :: paid).length < n →
          Outline.enterAll (recorder skips (some n)) stopped (visit :: visits) paid =
            cut n (new ++ visit :: paid)) := by
      by_cases skipped : skips visit.kind
      · refine ⟨[], by simp [Outline.enterAll, recorder, skipped], fun few => ?_⟩
        have further : n ≠ paid.length + 1 := (Nat.ne_of_lt few).symm
        rw [List.nil_append, cut_of_lt few]
        simp [Outline.enterAll, recorder, skipped, further]
      · obtain ⟨new, free, same⟩ := ih (visit :: paid)
        refine ⟨new, by simpa [Outline.enterAll, recorder, skipped] using free, fun few => ?_⟩
        have further : n ≠ paid.length + 1 := (Nat.ne_of_lt few).symm
        simpa [Outline.enterAll, recorder, skipped, further] using same few
    refine ⟨new ++ [visit], by simpa using free, fun few => ?_⟩
    rw [List.append_assoc, List.singleton_append]
    by_cases last : n = paid.length + 1
    · have whole : (visit :: paid).length = n := last.symm
      rw [cut_append (Nat.le_of_eq whole.symm), cut, whole, Nat.sub_self, List.drop_zero]
      simp [Outline.enterAll, recorder, last]
    · exact same (Nat.lt_of_le_of_ne few (Ne.symm last))

mutual

theorem cuts_walk (skips : VisitKind → Bool) (n : Nat) (outline : Outline) :
    Cuts n (outline.walk (recorder skips none)) (outline.walk (recorder skips (some n))) := by
  cases outline with
  | node root parts => exact (cuts_walkAll skips n parts).enterAll root.visits

theorem cuts_walkAll (skips : VisitKind → Bool) (n : Nat) (parts : List Outline) :
    Cuts n (walkAll (recorder skips none) parts) (walkAll (recorder skips (some n)) parts) := by
  cases parts with
  | nil => exact fun paid => ⟨[], rfl, fun few => (cut_of_lt few).symm⟩
  | cons part rest =>
    intro paid
    obtain ⟨first, free, stopped⟩ := cuts_walk skips n part paid
    obtain ⟨others, freeRest, stoppedRest⟩ := cuts_walkAll skips n rest (first ++ paid)
    refine ⟨others ++ first, ?_, fun few => ?_⟩
    · rw [walkAll, free, List.append_assoc]
      exact freeRest
    -- Either the walk is not ended in the first part, or what the others would pay is cut off.
    rw [walkAll, stopped few, List.append_assoc]
    by_cases more : (first ++ paid).length < n
    · rw [cut_of_lt more]
      exact stoppedRest more
    · have many := Nat.le_of_not_lt more
      rw [cut_append many, cut, decide_eq_true many]

end

/-- A walk that is to be ended with visit `n` pays the first `n` visits, and is ended if there are
so many. -/
theorem record_some (outline : Outline) (skips : VisitKind → Bool) (positive : 0 < n) :
    outline.record skips (some n) =
      (decide (n ≤ (outline.record skips none).2.length), (outline.record skips none).2.take n) := by
  obtain ⟨new, free, stopped⟩ := cuts_walk skips n outline []
  rw [record_eq, record_eq, stopped positive, free, cut, List.append_nil]
  simp only [List.length_reverse, List.take_reverse]

/-! ### Walks that leave something out -/

/-- A visit and those that it is inside of, the innermost first. -/
structure NestedVisit where
  visit : Visit
  around : List Visit

/-- Whether the visit is inside none that is skipped. -/
def NestedVisit.isOpen (skips : VisitKind → Bool) (nested : NestedVisit) : Bool :=
  nested.around.all fun outer => !skips outer.kind

/-- Visits that are one inside the other, with what is in the innermost. -/
def nestedEach (inside : List Visit → List NestedVisit) (around : List Visit) :
    List Visit → List NestedVisit
  | [] => inside around
  | visit :: visits => ⟨visit, around⟩ :: nestedEach inside (visit :: around) visits

mutual

/-- All visits to an outline inside of the visits, with those that they are inside of. -/
def nested (around : List Visit) : Outline → List NestedVisit
  | .node root parts => nestedEach (fun around => nestedAll around parts) around root.visits

def nestedAll (around : List Visit) : List Outline → List NestedVisit
  | [] => []
  | part :: rest => part.nested around ++ nestedAll around rest

end

/-- The visits that are inside none that is skipped. -/
def openVisits (skips : VisitKind → Bool) (visits : List NestedVisit) : List Visit :=
  (visits.filter (·.isOpen skips)).map (·.visit)

theorem openVisits_append (skips : VisitKind → Bool) (front back : List NestedVisit) :
    openVisits skips (front ++ back) = openVisits skips front ++ openVisits skips back := by
  simp [openVisits]

/-- What the visits of one tree are inside of, what is in the tree is inside of too. -/
theorem suffix_of_nestedEach {inside : List Visit → List NestedVisit}
    (within : ∀ around, ∀ nested ∈ inside around, around <:+ nested.around) (visits : List Visit) :
    ∀ around, ∀ nested ∈ nestedEach inside around visits, around <:+ nested.around := by
  induction visits with
  | nil => exact within
  | cons visit visits ih =>
    intro around nested among
    rcases List.mem_cons.mp among with rfl | later
    · exact List.suffix_refl around
    · exact (List.suffix_cons visit around).trans (ih (visit :: around) nested later)

mutual

theorem suffix_of_nested (around : List Visit) (outline : Outline) :
    ∀ visit ∈ outline.nested around, around <:+ visit.around := by
  cases outline with
  | node root parts =>
    exact suffix_of_nestedEach (fun around => suffix_of_nestedAll around parts) root.visits around

theorem suffix_of_nestedAll (around : List Visit) (parts : List Outline) :
    ∀ visit ∈ nestedAll around parts, around <:+ visit.around := by
  cases parts with
  | nil => exact fun _ none => absurd none List.not_mem_nil
  | cons part rest =>
    intro visit among
    rcases List.mem_append.mp among with first | later
    · exact suffix_of_nested around part visit first
    · exact suffix_of_nestedAll around rest visit later

end

/-- Of the visits inside of one that is skipped none is left. -/
theorem openVisits_of_skipped {visit : Visit} {visits : List NestedVisit}
    (within : ∀ nested ∈ visits, visit :: around <:+ nested.around)
    (skipped : skips visit.kind) : openVisits skips visits = [] := by
  have closed : ∀ nested ∈ visits, ¬ nested.isOpen skips := fun nested among whole => by
    have outer := List.all_eq_true.mp whole visit ((within nested among).mem (.head _))
    simp [skipped] at outer
  rw [openVisits, List.filter_eq_nil_iff.mpr closed, List.map_nil]

/-- The walk pays of the visits inside of others those that are open, unless it skips one of the
others. -/
def Shows (skips : VisitKind → Bool) (inside : List Visit → List NestedVisit)
    (walked : List Visit → Bool × List Visit) : Prop :=
  ∀ around paid, (around.all fun outer => !skips outer.kind) →
    walked paid = (false, (openVisits skips (inside around)).reverse ++ paid)

theorem Shows.enterAll {inside : List Visit → List NestedVisit}
    {walked : List Visit → Bool × List Visit} (shows : Shows skips inside walked)
    (within : ∀ around, ∀ nested ∈ inside around, around <:+ nested.around) (visits : List Visit) :
    Shows skips (nestedEach inside · visits) (enterAll (recorder skips none) walked visits) := by
  induction visits with
  | nil => exact shows
  | cons visit visits ih =>
    intro around paid whole
    have first : openVisits skips (nestedEach inside around (visit :: visits)) =
        visit :: openVisits skips (nestedEach inside (visit :: around) visits) := by
      have isOpen : NestedVisit.isOpen skips ⟨visit, around⟩ := whole
      rw [nestedEach, openVisits, List.filter_cons_of_pos isOpen, List.map_cons, openVisits]
    rw [first, List.reverse_cons, List.append_assoc, List.singleton_append]
    by_cases skipped : skips visit.kind
    · rw [openVisits_of_skipped (suffix_of_nestedEach within visits (visit :: around)) skipped]
      simp [Outline.enterAll, recorder, skipped]
    · have deeper := ih (visit :: around) (visit :: paid) (by simpa [skipped] using whole)
      simpa [Outline.enterAll, recorder, skipped] using deeper

mutual

theorem shows_walk (skips : VisitKind → Bool) (outline : Outline) :
    Shows skips (nested · outline) (outline.walk (recorder skips none)) := by
  cases outline with
  | node root parts =>
    exact (shows_walkAll skips parts).enterAll (fun around => suffix_of_nestedAll around parts)
      root.visits

theorem shows_walkAll (skips : VisitKind → Bool) (parts : List Outline) :
    Shows skips (nestedAll · parts) (walkAll (recorder skips none) parts) := by
  cases parts with
  | nil => exact fun _ _ _ => rfl
  | cons part rest =>
    intro around paid whole
    rw [walkAll, shows_walk skips part around paid whole]
    dsimp only
    rw [shows_walkAll skips rest around _ whole, nestedAll, openVisits_append, List.reverse_append,
      List.append_assoc]

end

/-- A walk that is not ended pays the visits that are inside none that it skips. -/
theorem record_none (outline : Outline) (skips : VisitKind → Bool) :
    outline.record skips none = (false, openVisits skips (outline.nested [])) := by
  rw [record_eq, shows_walk skips outline [] [] rfl, List.append_nil, List.reverse_reverse]

/-- A walk that skips nothing pays all visits. -/
theorem openVisits_all (visits : List NestedVisit) :
    openVisits (fun _ => false) visits = visits.map (·.visit) := by
  rw [openVisits, List.filter_eq_self.mpr fun nested _ => by simp [NestedVisit.isOpen]]

end Outline

/-- A walk over a tree that is to be ended with visit `n` pays the first `n` of the visits that it
pays if it is not to be ended, and is ended if and only if there are so many. Those are, of the
visits that a walk pays that skips nothing, the ones that are inside no visit that is skipped. -/
theorem record_cut (tree : Tree category) (skips : VisitKind → Bool) {n : Nat} (positive : 0 < n) :
    tree.outline.record skips (some n) =
      (decide (n ≤ (tree.outline.record skips none).2.length),
        (tree.outline.record skips none).2.take n) ∧
    tree.outline.record skips none = (false, Outline.openVisits skips (tree.outline.nested [])) ∧
    tree.outline.record (fun _ => false) none =
      (false, (tree.outline.nested []).map (·.visit)) := by
  refine ⟨tree.outline.record_some skips positive, tree.outline.record_none skips, ?_⟩
  rw [Outline.record_none, Outline.openVisits_all]

/-- Of a block in a block, the walk that skips statements pays the outer block and the statement,
and is ended if that is what it is to be ended with. -/
theorem record_cut_block : ∃ tree : Tree .block,
    tree.outline.record (· == .statement) (some 2) =
      (true, (tree.outline.record (· == .statement) none).2.take 2) ∧
    (tree.outline.record (· == .statement) none).2.length = 2 ∧
    (tree.outline.record (fun _ => false) none).2.length = 3 := by
  let tree : Tree .block := .block (.cons (.blockStmt (.block .nil default)) .nil) default
  obtain ⟨stopped, -, -⟩ := record_cut tree (· == .statement) (show 0 < 2 by decide)
  exact ⟨tree, stopped, rfl, rfl⟩

end JavaFrontend.Java
