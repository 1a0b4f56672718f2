import JavaFrontend.Diagnostic
import JavaFrontend.Proofs.Source.PathOrder

/-!
Diagnostics in their order, however they came in. They are sorted by file, place and message, so
these come out alike for every order of arrival; but the severity has no part in it, and neither
does the way in which a path is written, so diagnostics that agree in the rest stay in the order in
which they came (`Diagnostics.sorted_of_perm`).
-/

namespace JavaFrontend

open Std

/-! ### Sorting by a key -/

section ByKey

variable {α κ : Type} (key : α → κ) (order : κ → κ → Ordering)

/-- Whether the key of the first does not come after that of the second. -/
def keyLE (a b : α) : Bool := (order (key a) (key b)).isLE

variable [TransCmp order]

theorem pairwise_mergeSort_keyLE (values : List α) :
    (values.mergeSort (keyLE key order)).Pairwise (keyLE key order · ·) := by
  apply List.pairwise_mergeSort
  · intro a b c
    exact isLE_trans order _ _ _
  · intro a b
    exact isLE_total order _ _

variable [LawfulEqCmp order]

/-- The keys come out alike for every order of the values. -/
theorem map_mergeSort_of_perm {first second : List α} (perm : first.Perm second) :
    (first.mergeSort (keyLE key order)).map key = (second.mergeSort (keyLE key order)).map key := by
  have sorted (values : List α) : ((values.mergeSort (keyLE key order)).map key).Pairwise
      fun a b => (order a b).isLE :=
    List.pairwise_map.mpr (pairwise_mergeSort_keyLE key order values)
  have perms : ((first.mergeSort (keyLE key order)).map key).Perm
      ((second.mergeSort (keyLE key order)).map key) :=
    (((List.mergeSort_perm first _).trans perm).trans (List.mergeSort_perm second _).symm).map key
  refine List.Perm.eq_of_pairwise ?_ (sorted first) (sorted second) perms
  intro a b _ _ ahead behind
  exact LawfulEqCmp.eq_of_compare (OrientedCmp.isLE_antisymm ahead behind)

variable [DecidableEq κ]

/-- Values of one key stay in the order in which they were. -/
theorem filter_mergeSort_keyLE (values : List α) (one : κ) :
    (values.mergeSort (keyLE key order)).filter (key · = one) = values.filter (key · = one) := by
  have ties : (values.filter (key · = one)).Pairwise (keyLE key order · ·) := by
    apply List.pairwise_of_forall_mem_list
    intro a amongA b amongB
    have keyA : key a = one := by simpa using (List.mem_filter.mp amongA).2
    have keyB : key b = one := by simpa using (List.mem_filter.mp amongB).2
    have self : order one one = .eq := ReflCmp.compare_self
    rw [keyLE, keyA, keyB, self]
    rfl
  have kept : (values.filter (key · = one)).Sublist (values.mergeSort (keyLE key order)) := by
    apply List.sublist_mergeSort _ _ ties List.filter_sublist
    · intro a b c
      exact isLE_trans order _ _ _
    · intro a b
      exact isLE_total order _ _
  have inside := kept.filter (key · = one)
  rw [List.filter_filter] at inside
  simp only [Bool.and_self] at inside
  apply Eq.symm
  apply inside.eq_of_length
  exact ((List.mergeSort_perm values _).filter _).length_eq.symm

variable {key order}

/-- Sorted lists are the same if for every key they have the same values in the same order. -/
theorem eq_of_filter_eq {first second : List α} (sorted : first.Pairwise (keyLE key order · ·))
    (sorted' : second.Pairwise (keyLE key order · ·))
    (same : ∀ one, first.filter (key · = one) = second.filter (key · = one)) : first = second := by
  -- A value of either list is in the other one, as the first of its key there.
  have mem_iff (value : α) : value ∈ first ↔ value ∈ second := by
    have both := congrArg (value ∈ ·) (same (key value))
    simpa [List.mem_filter] using both
  induction first generalizing second with
  | nil =>
    cases second with
    | nil => rfl
    | cons b second => exact absurd ((mem_iff b).mpr List.mem_cons_self) List.not_mem_nil
  | cons a first ih =>
    cases second with
    | nil => exact absurd ((mem_iff a).mp List.mem_cons_self) List.not_mem_nil
    | cons b second =>
      obtain ⟨leastA, further⟩ := List.pairwise_cons.mp sorted
      obtain ⟨leastB, further'⟩ := List.pairwise_cons.mp sorted'
      have keys : key a = key b := by
        have ahead : (order (key a) (key b)).isLE := by
          rcases List.mem_cons.mp ((mem_iff b).mpr List.mem_cons_self) with rfl | later
          · exact ReflCmp.isLE_rfl
          · exact leastA b later
        have behind : (order (key b) (key a)).isLE := by
          rcases List.mem_cons.mp ((mem_iff a).mp List.mem_cons_self) with rfl | later
          · exact ReflCmp.isLE_rfl
          · exact leastB a later
        exact LawfulEqCmp.eq_of_compare (OrientedCmp.isLE_antisymm ahead behind)
      have heads := same (key a)
      rw [List.filter_cons_of_pos (by simp), List.filter_cons_of_pos (by simp [keys])] at heads
      obtain rfl : a = b := (List.cons.inj heads).1
      have tails (one : κ) : first.filter (key · = one) = second.filter (key · = one) := by
        by_cases here : key a = one
        · have both := same one
          rw [List.filter_cons_of_pos (by simpa using here),
            List.filter_cons_of_pos (by simpa using here)] at both
          exact (List.cons.inj both).2
        · have both := same one
          rwa [List.filter_cons_of_neg (by simpa using here),
            List.filter_cons_of_neg (by simpa using here)] at both
      refine congrArg (a :: ·) (ih further further' tails fun value => ?_)
      have both := congrArg (value ∈ ·) (tails (key value))
      simpa [List.mem_filter] using both

/-- And the values do if those of one key are given in one order. -/
theorem mergeSort_eq_iff {first second : List α} :
    first.mergeSort (keyLE key order) = second.mergeSort (keyLE key order) ↔
      ∀ one, first.filter (key · = one) = second.filter (key · = one) := by
  constructor
  · intro same one
    rw [← filter_mergeSort_keyLE key order, same, filter_mergeSort_keyLE]
  · intro same
    apply eq_of_filter_eq (pairwise_mergeSort_keyLE key order first)
      (pairwise_mergeSort_keyLE key order second)
    intro one
    rw [filter_mergeSort_keyLE, filter_mergeSort_keyLE, same one]

end ByKey

/-! ### What diagnostics are sorted by -/

/-- What there is to see of a diagnostic. -/
structure Notice where
  severity : Severity
  origin : Option Path
  position : Option Position
  message : String
deriving DecidableEq, Repr

namespace Notice

/-- The file, the place in it and the message. -/
abbrev Key := Option (List PathComponent) × Option Position × String

def key (notice : Notice) : Key :=
  (notice.origin.map Path.components, notice.position, notice.message)

end Notice

namespace Diagnostic

def notice (diagnostic : Diagnostic) : Notice :=
  ⟨diagnostic.severity, diagnostic.origin, diagnostic.position, diagnostic.message⟩

section Optional

variable {α : Type} {order : α → α → Ordering}

instance [TransCmp order] : TransCmp (compareOption order) where
  eq_swap {a b} := by
    cases a <;> cases b
    case some.some a b => exact (OrientedCmp.eq_swap : order a b = (order b a).swap)
    all_goals rfl
  isLE_trans {a b c} ahead behind := by
    cases a <;> cases b <;> cases c
    case some.some.some a b c => exact isLE_trans order a b c ahead behind
    all_goals first | rfl | cases ahead | cases behind

instance [LawfulEqCmp order] : LawfulEqCmp (compareOption order) where
  compare_self {a} := by
    cases a with
    | none => rfl
    | some a => exact (ReflCmp.compare_self : order a a = .eq)
  eq_of_compare {a b} equal := by
    cases a <;> cases b
    case none.none => rfl
    case some.some a b =>
      have equal : order a b = .eq := equal
      exact congrArg some (LawfulEqCmp.eq_of_compare equal)
    all_goals cases equal

end Optional

end Diagnostic

namespace Position

theorem compare_eq (a b : Position) :
    a.compare b = compareLex (compareOn line) (compareOn column) a b := rfl

instance : TransCmp Position.compare :=
  inferInstanceAs (TransCmp (compareLex (compareOn line) (compareOn column)))

instance : LawfulEqCmp Position.compare where
  eq_of_compare {a b} equal := by
    rw [compare_eq, compareLex_eq_eq] at equal
    obtain ⟨lines, columns⟩ := equal
    have lines : a.line = b.line := LawfulEqOrd.eq_of_compare lines
    have columns : a.column = b.column := LawfulEqOrd.eq_of_compare columns
    cases a
    cases b
    simp_all

end Position

namespace Notice.Key

open Diagnostic

protected def compare : Key → Key → Ordering :=
  compareLex (fun a b => compareOption Path.compareComponents a.1 b.1)
    (compareLex (fun a b => compareOption Position.compare a.2.1 b.2.1) (compareOn (·.2.2)))

instance : TransCmp Key.compare := by
  have := transCmp_pullback (compareOption Path.compareComponents) (Prod.fst : Key → _)
  have := transCmp_pullback (compareOption Position.compare) fun key : Key => key.2.1
  exact inferInstanceAs
    (TransCmp (compareLex _ (compareLex _ (compareOn fun key : Key => key.2.2))))

instance : LawfulEqCmp Key.compare where
  eq_of_compare {a b} equal := by
    rw [Key.compare, compareLex_eq_eq, compareLex_eq_eq] at equal
    obtain ⟨origins, positions, messages⟩ := equal
    have origins : a.1 = b.1 := LawfulEqCmp.eq_of_compare origins
    have positions : a.2.1 = b.2.1 := LawfulEqCmp.eq_of_compare positions
    have messages : a.2.2 = b.2.2 := LawfulEqOrd.eq_of_compare messages
    exact Prod.ext origins (Prod.ext positions messages)

end Notice.Key

theorem Diagnostic.compare_eq (a b : Diagnostic) :
    a.compare b = Notice.Key.compare a.notice.key b.notice.key := by
  have origins : compareOption Path.compare a.origin b.origin =
      compareOption Path.compareComponents (a.origin.map Path.components)
        (b.origin.map Path.components) := by
    cases a.origin <;> cases b.origin <;> rfl
  rw [Diagnostic.compare, origins, Ordering.then_assoc]
  rfl

/-! ### Diagnostics in any order -/

namespace Diagnostics

variable {reported arrived : List Diagnostic}

theorem reported_foldl (diagnostics : Diagnostics) (reported : List Diagnostic) :
    (reported.foldl report diagnostics).reported = diagnostics.reported ++ reported := by
  induction reported generalizing diagnostics with
  | nil => exact (List.append_nil _).symm
  | cons first reported ih =>
    rw [List.foldl_cons, ih, report, List.append_assoc, List.singleton_append]

/-- What there is after the diagnostics were reported one after the other. -/
def ofReports (reported : List Diagnostic) : Diagnostics := reported.foldl report {}

@[simp] theorem reported_ofReports (reported : List Diagnostic) :
    (ofReports reported).reported = reported := reported_foldl {} reported

/-- The diagnostics after the reports, seen from outside. -/
theorem notices_sorted (reported : List Diagnostic) :
    (ofReports reported).sorted.map (·.notice) =
      (reported.map (·.notice)).mergeSort (keyLE Notice.key Notice.Key.compare) := by
  rw [sorted, reported_ofReports]
  apply List.map_mergeSort
  intro a _ b _
  rw [Diagnostic.compare_eq, keyLE]

/-- Whatever the order in which the same diagnostics are reported, as many errors are counted, and
all are listed, in one order of their files, places and messages. What else there is to see of them
comes out alike exactly if those that agree in all of that came in one order. -/
theorem sorted_of_perm (perm : reported.Perm arrived) :
    (ofReports reported).hasError = (ofReports arrived).hasError ∧
    (ofReports reported).errorCount = (ofReports arrived).errorCount ∧
    (ofReports reported).sorted.Perm reported ∧ (ofReports arrived).sorted.Perm reported ∧
    (ofReports reported).sorted.map (·.notice.key) =
      (ofReports arrived).sorted.map (·.notice.key) ∧
    ((ofReports reported).sorted.map (·.notice) = (ofReports arrived).sorted.map (·.notice) ↔
      ∀ key, (reported.map (·.notice)).filter (·.key = key) =
        (arrived.map (·.notice)).filter (·.key = key)) := by
  have sorts (reported : List Diagnostic) : (ofReports reported).sorted.Perm reported := by
    rw [sorted, reported_ofReports]
    exact List.mergeSort_perm _ _
  refine ⟨?_, ?_, sorts reported, (sorts arrived).trans perm.symm, ?_, ?_⟩
  · rw [hasError, hasError, reported_ofReports, reported_ofReports]
    exact perm.any_eq
  · rw [errorCount, errorCount, reported_ofReports, reported_ofReports]
    exact perm.countP_eq _
  · have keys (diagnostics : List Diagnostic) :
        diagnostics.map (·.notice.key) = (diagnostics.map (·.notice)).map Notice.key := by
      rw [List.map_map]
      rfl
    rw [keys, keys, notices_sorted, notices_sorted]
    exact map_mergeSort_of_perm Notice.key Notice.Key.compare (perm.map _)
  · rw [notices_sorted, notices_sorted]
    exact mergeSort_eq_iff

/-- An error in the file, at a place in it or anywhere. -/
def failureIn (file : String) (position : Option Position) : Diagnostic :=
  ⟨.error, some ⟨file⟩, position, .other "broken"⟩

/-- Two files that finish in either order. -/
theorem sorted_of_two :
    [failureIn "B.java" none, failureIn "A.java" (some ⟨2, 1⟩)].Perm
      [failureIn "A.java" (some ⟨2, 1⟩), failureIn "B.java" none] ∧
    (ofReports [failureIn "B.java" none, failureIn "A.java" (some ⟨2, 1⟩)]).sorted.map (·.notice) =
      (ofReports [failureIn "A.java" (some ⟨2, 1⟩), failureIn "B.java" none]).sorted.map
        (·.notice) := by
  have swap : [failureIn "B.java" none, failureIn "A.java" (some ⟨2, 1⟩)].Perm
      [failureIn "A.java" (some ⟨2, 1⟩), failureIn "B.java" none] := .swap _ _ []
  obtain ⟨-, -, -, -, -, same⟩ := sorted_of_perm swap
  refine ⟨swap, same.mpr fun key => ?_⟩
  have apart : (failureIn "B.java" none).notice.key ≠
      (failureIn "A.java" (some ⟨2, 1⟩)).notice.key := fun same => by
    cases congrArg (·.2.1) same
  by_cases here : (failureIn "A.java" (some ⟨2, 1⟩)).notice.key = key
  · subst here
    simp [apart]
  · simp [List.filter_cons, here]

/-- An error and a warning of one text about one place stay in the order in which they came. -/
theorem sorted_depends_on_arrival : ¬ ∀ reported arrived : List Diagnostic,
    reported.Perm arrived →
      (ofReports reported).sorted.map (·.notice) = (ofReports arrived).sorted.map (·.notice) ∧
      (ofReports reported).hasError = (ofReports arrived).hasError ∧
      (ofReports reported).errorCount = (ofReports arrived).errorCount ∧
      (ofReports reported).sorted.Perm reported := by
  intro always
  let failure : Diagnostic := ⟨.error, some ⟨"A.java"⟩, some ⟨1, 1⟩, .other "x"⟩
  let warning : Diagnostic := { failure with severity := .warning }
  have swap : [warning, failure].Perm [failure, warning] := .swap failure warning []
  obtain ⟨same, -⟩ := always _ _ swap
  rw [notices_sorted, notices_sorted, mergeSort_eq_iff] at same
  have here : [warning.notice, failure.notice] = [failure.notice, warning.notice] := by
    simpa [List.filter_cons, show warning.notice.key = failure.notice.key from rfl]
      using same failure.notice.key
  exact absurd (List.cons.inj here).1 (by decide)

end Diagnostics

end JavaFrontend
