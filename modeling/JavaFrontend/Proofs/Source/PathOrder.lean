import JavaFrontend.Source.Path

/-!
The order of paths. Components are ordered by rank and name, and paths as words are by their
letters, so any two paths can be compared (`Std.TransCmp Path.compare`), and those of which neither
comes first have the same components (`Path.compare_eq_iff`).
-/

namespace JavaFrontend

open Std

section Comparing

variable {α : Type} (order : α → α → Ordering)

theorem isLE_total [OrientedCmp order] (a b : α) :
    ((order a b).isLE || (order b a).isLE) = true := by
  have swapped : order b a = (order a b).swap := OrientedCmp.eq_swap
  rw [swapped]
  cases order a b <;> rfl

theorem isLE_trans [TransCmp order] (a b c : α) :
    (order a b).isLE = true → (order b c).isLE = true → (order a c).isLE = true :=
  TransCmp.isLE_trans

theorem transCmp_pullback [TransCmp order] {β : Type} (f : β → α) :
    TransCmp fun a b => order (f a) (f b) where
  eq_swap := OrientedCmp.eq_swap
  isLE_trans := isLE_trans order _ _ _

end Comparing

namespace PathComponent

/-- What is left to compare when the ranks agree. -/
def text : PathComponent → String
  | .name letters => letters
  | _ => ""

theorem compare_eq (a b : PathComponent) :
    a.compare b = compareLex (compareOn rank) (compareOn text) a b := by
  cases a <;> cases b <;> rfl

instance : TransCmp PathComponent.compare := by
  have same : PathComponent.compare = compareLex (compareOn rank) (compareOn text) :=
    funext fun a => funext fun b => compare_eq a b
  rw [same]
  infer_instance

instance : LawfulEqCmp PathComponent.compare where
  eq_of_compare {a b} equal := by
    rw [compare_eq, compareLex_eq_eq] at equal
    obtain ⟨ranks, texts⟩ := equal
    have ranks : a.rank = b.rank := LawfulEqOrd.eq_of_compare ranks
    have texts : a.text = b.text := LawfulEqOrd.eq_of_compare texts
    cases a <;> cases b <;> simp_all [rank, text]

end PathComponent

namespace Path

theorem compareComponents_eq : compareComponents = List.compareLex PathComponent.compare := by
  funext as bs
  induction as generalizing bs with
  | nil => cases bs <;> rfl
  | cons a as ih =>
    cases bs with
    | nil => rfl
    | cons b bs => rw [compareComponents, List.compareLex_cons_cons, ih]

instance : TransCmp compareComponents := by
  rw [compareComponents_eq]
  infer_instance

instance : LawfulEqCmp compareComponents := by
  rw [compareComponents_eq]
  infer_instance

instance : TransCmp Path.compare := transCmp_pullback compareComponents components

theorem compare_eq_iff {a b : Path} : a.compare b = .eq ↔ a.components = b.components := by
  rw [Path.compare]
  exact LawfulEqCmp.compare_eq_iff_eq

end Path

end JavaFrontend
