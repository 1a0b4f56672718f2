import JavaFrontend.Grammar.Reachability
import Mathlib.Data.Finset.Card
import Mathlib.Data.List.Nodup

/-!
What is reachable. The names that the search finds are the least set with the start in it that is
closed under references, provided that all names referred to are defined: each round that goes on
finds another name, so the rounds are enough.
-/

namespace JavaFrontend

namespace Reachability

variable {successors : String → List String} {names frontier : List String}
  {seen : Std.HashSet String} {name other start : String} {P : String → Prop}

/-! ### One round -/

/-- A round sees all the names, and says which of them are new. -/
theorem mem_visit_iff : (name ∈ (visit names seen).2 ↔ name ∈ names ∨ name ∈ seen) ∧
    (name ∈ (visit names seen).1 ↔ name ∈ names ∧ name ∉ seen) := by
  suffices all : ∀ fresh,
      let after := names.foldl (fun pair name =>
        if pair.2.contains name then pair else (name :: pair.1, pair.2.insert name))
        (fresh, seen)
      (name ∈ after.2 ↔ name ∈ names ∨ name ∈ seen) ∧
        (name ∈ after.1 ↔ name ∈ fresh ∨ name ∈ names ∧ name ∉ seen) by
    have whole := all []
    simp only [List.not_mem_nil, false_or] at whole
    exact whole
  induction names generalizing seen with
  | nil => simp
  | cons first names ih =>
    intro fresh
    by_cases old : seen.contains first
    · have known : first ∈ seen := old
      simp only [List.foldl_cons, old, if_true, ih fresh, List.mem_cons]
      by_cases same : name = first
      · simp [same, known]
      · simp [same]
    · have unknown : first ∉ seen := old
      simp only [List.foldl_cons, old, if_false, Bool.false_eq_true, ih (first :: fresh),
        List.mem_cons, Std.HashSet.mem_insert, beq_iff_eq]
      by_cases same : name = first
      · simp [same, unknown]
      · simp [same, Ne.symm same]

/-! ### All rounds -/

/-- What holds of the names seen and of all that they refer to holds of all that is found. -/
theorem spread_induction {rounds : Nat} (closed : ∀ name, P name → ∀ other ∈ successors name,
    P other) (before : ∀ name ∈ seen, P name) (ahead : ∀ name ∈ frontier, P name) :
    ∀ name ∈ spread successors rounds frontier seen, P name := by
  induction rounds generalizing frontier seen with
  | zero => exact before
  | succ rounds ih =>
    have next (name : String) (member : name ∈ frontier.flatMap successors) : P name := by
      obtain ⟨origin, among, member⟩ := List.mem_flatMap.mp member
      exact closed origin (ahead origin among) name member
    have later (name : String)
        (member : name ∈ (visit (frontier.flatMap successors) seen).2) : P name :=
      (mem_visit_iff.1.mp member).elim (next name) (before name)
    rw [spread]
    dsimp only
    split
    · exact later
    · exact ih later fun name member => next name (mem_visit_iff.2.mp member).1

/-- Among finitely many names, more rounds than there are names unseen find all that the names
found refer to. -/
theorem spread_closed (all : Finset String) {rounds : Nat}
    (closed : ∀ name ∈ all, ∀ other ∈ successors name, other ∈ all)
    (inside : ∀ name ∈ seen, name ∈ all) (ahead : ∀ name ∈ frontier, name ∈ seen)
    (settled : ∀ name ∈ seen, name ∉ frontier → ∀ other ∈ successors name, other ∈ seen)
    (enough : (all.filter (· ∉ seen)).card < rounds) :
    ∀ name ∈ spread successors rounds frontier seen, ∀ other ∈ successors name,
      other ∈ spread successors rounds frontier seen := by
  induction rounds generalizing frontier seen with
  | zero => exact absurd enough (Nat.not_lt_zero _)
  | succ rounds ih =>
    have settledNext (name : String) (member : name ∈ seen) (other : String)
        (referred : other ∈ successors name) :
        other ∈ (visit (frontier.flatMap successors) seen).2 := by
      refine mem_visit_iff.1.mpr ?_
      by_cases among : name ∈ frontier
      · exact .inl (List.mem_flatMap.mpr ⟨name, among, referred⟩)
      · exact .inr (settled name member among other referred)
    rw [spread]
    dsimp only
    split
    · next empty =>
      -- nothing is new, so all that is seen has been seen before
      intro name member
      refine settledNext name ((mem_visit_iff.1.mp member).elim (fun next => ?_) id)
      by_contra unknown
      have fresh := mem_visit_iff.2.mpr ⟨next, unknown⟩
      rw [List.isEmpty_iff.mp empty] at fresh
      cases fresh
    · next some =>
      obtain ⟨first, new⟩ := List.exists_mem_of_ne_nil _ (mt List.isEmpty_iff.mpr some)
      obtain ⟨next, unknown⟩ := mem_visit_iff.2.mp new
      have within (name : String) (member : name ∈ frontier.flatMap successors) : name ∈ all := by
        obtain ⟨origin, among, referred⟩ := List.mem_flatMap.mp member
        exact closed origin (inside origin (ahead origin among)) name referred
      refine ih ?_ ?_ ?_ ?_
      · exact fun name member => (mem_visit_iff.1.mp member).elim (within name) (inside name)
      · exact fun name member => mem_visit_iff.1.mpr (.inl (mem_visit_iff.2.mp member).1)
      · intro name member old
        refine settledNext name ((mem_visit_iff.1.mp member).elim (fun next => ?_) id)
        by_contra unknown
        exact old (mem_visit_iff.2.mpr ⟨next, unknown⟩)
      · refine Nat.lt_of_lt_of_le (Finset.card_lt_card ?_) (Nat.le_of_lt_succ enough)
        refine (Finset.ssubset_iff_of_subset fun name member => ?_).mpr ⟨first, ?_, ?_⟩
        · obtain ⟨member, unseen⟩ := Finset.mem_filter.mp member
          exact Finset.mem_filter.mpr
            ⟨member, fun known => unseen (mem_visit_iff.1.mpr (.inr known))⟩
        · exact Finset.mem_filter.mpr ⟨within first next, unknown⟩
        · exact fun member => (Finset.mem_filter.mp member).2 (mem_visit_iff.1.mpr (.inl next))

/-- What was seen is found. -/
theorem mem_spread {rounds : Nat} (known : name ∈ seen) :
    name ∈ spread successors rounds frontier seen := by
  induction rounds generalizing frontier seen with
  | zero => exact known
  | succ rounds ih =>
    have next : name ∈ (visit (frontier.flatMap successors) seen).2 :=
      mem_visit_iff.1.mpr (.inr known)
    rw [spread]
    dsimp only
    split
    · exact next
    · exact ih next

/-! ### What can be reached -/

variable {productions : List (String × List (List Part))}

/-- A table made of distinct names answers with the entry of the name. -/
theorem mem_getD_ofList {β : Type} {entries : List (String × List β)} {value : β}
    (distinct : (entries.map (·.1)).Nodup) : value ∈ (Std.HashMap.ofList entries).getD name [] ↔
      ∃ values, (name, values) ∈ entries ∧ value ∈ values := by
  have apart : entries.Pairwise fun a b => (a.1 == b.1) = false := by
    simpa [List.Nodup, List.pairwise_map] using distinct
  by_cases present : name ∈ entries.map (·.1)
  · obtain ⟨⟨_, values⟩, member, rfl⟩ := List.mem_map.mp present
    rw [Std.HashMap.getD_ofList_of_mem (beq_self_eq_true _) apart member]
    constructor
    · intro inside
      exact ⟨values, member, inside⟩
    · rintro ⟨others, known, inside⟩
      have same := List.inj_on_of_nodup_map distinct member known rfl
      cases same
      exact inside
  · rw [Std.HashMap.getD_ofList_of_contains_eq_false
      (by simpa [List.contains_eq_mem] using present)]
    constructor
    · intro inside
      cases inside
    · rintro ⟨values, known, -⟩
      exact absurd (List.mem_map_of_mem known) present

/-- The one name refers to the other. -/
def Refers (productions : List (String × List (List Part))) (name other : String) : Prop :=
  ∃ sides, (name, sides) ∈ productions ∧ other ∈ references sides

theorem mem_references {sides : List (List Part)} :
    name ∈ references sides ↔ ∃ production ∈ sides, .rule name ∈ production := by
  simp only [references, List.mem_flatMap, List.mem_filterMap]
  refine exists_congr fun production => and_congr_right fun _ => ?_
  constructor
  · rintro ⟨part, member, named⟩
    cases part with
    | token kind => cases named
    | rule target =>
      cases named
      exact member
  · exact fun member => ⟨_, member, rfl⟩

private theorem mem_successors (distinct : (productions.map (·.1)).Nodup) :
    other ∈ (Std.HashMap.ofList (productions.map fun (name, sides) =>
      (name, references sides))).getD name [] ↔ Refers productions name other := by
  rw [mem_getD_ofList (by simpa [List.map_map, Function.comp_def] using distinct)]
  constructor
  · rintro ⟨values, member, inside⟩
    obtain ⟨⟨_, sides⟩, known, same⟩ := List.mem_map.mp member
    cases same
    exact ⟨sides, known, inside⟩
  · rintro ⟨sides, known, inside⟩
    exact ⟨_, List.mem_map_of_mem known, inside⟩

/-- The start is reachable. -/
theorem start_mem_reachable (start : String) (productions : List (String × List (List Part))) :
    start ∈ reachable start productions :=
  mem_spread Std.HashSet.mem_insert_self

/-- What holds of the start and is handed on by references holds of all that can be reached. -/
theorem reachable_induction (distinct : (productions.map (·.1)).Nodup) (first : P start)
    (closed : ∀ name, P name → ∀ other, Refers productions name other → P other) :
    ∀ name ∈ reachable start productions, P name := by
  refine spread_induction (fun name holds other member => ?_) (fun name member => ?_) ?_
  · exact closed name holds other ((mem_successors distinct).mp member)
  · rcases Std.HashSet.mem_insert.mp member with same | none
    · rwa [← beq_iff_eq.mp same]
    · simp at none
  · simpa using first

/-- What a name refers to that can be reached can be reached. -/
theorem reachable_closed (distinct : (productions.map (·.1)).Nodup)
    (defined : ∀ name other, Refers productions name other → other ∈ productions.map (·.1))
    (found : name ∈ reachable start productions) (refers : Refers productions name other) :
    other ∈ reachable start productions := by
  refine spread_closed (insert start (productions.map (·.1)).toFinset)
    (fun name _ other member => ?_) (fun name member => ?_) (fun name member => ?_)
    (fun name member away => ?_) ?_ name found other ((mem_successors distinct).mpr refers)
  · exact Finset.mem_insert_of_mem
      (List.mem_toFinset.mpr (defined name other ((mem_successors distinct).mp member)))
  · rcases Std.HashSet.mem_insert.mp member with same | none
    · exact Finset.mem_insert.mpr (.inl (beq_iff_eq.mp same).symm)
    · simp at none
  · rw [List.mem_singleton.mp member]
    exact Std.HashSet.mem_insert_self
  · rcases Std.HashSet.mem_insert.mp member with same | none
    · exact absurd (List.mem_singleton.mpr (beq_iff_eq.mp same).symm) away
    · simp at none
  · have within : (insert start (productions.map (·.1)).toFinset).filter
        (· ∉ Std.HashSet.emptyWithCapacity.insert start) ⊆ (productions.map (·.1)).toFinset := by
      intro name member
      obtain ⟨member, unseen⟩ := Finset.mem_filter.mp member
      refine (Finset.mem_insert.mp member).resolve_left fun same => unseen ?_
      rw [same]
      exact Std.HashSet.mem_insert_self
    have few := (Finset.card_le_card within).trans (List.toFinset_card_le _)
    rw [List.length_map] at few
    exact Nat.lt_succ_of_le few

end Reachability

end JavaFrontend
