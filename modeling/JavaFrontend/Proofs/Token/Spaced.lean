import JavaFrontend.Proofs.Token.Spacing
import Mathlib.Order.Monotone.Basic

/-!
Texts with layout put into them. What is put behind each of the first characters of a text is given
by a function; the characters of the text keep their order, so their places do too.
-/

namespace JavaFrontend

variable {extra : Nat → List Char} {source : List Char} {k : Nat}

/-- The characters of a text behind the first `k`, with more put behind each of them: `extra i` is
what comes behind the first `i` characters of the whole text. -/
def spacedFrom (extra : Nat → List Char) (k : Nat) : List Char → List Char
  | [] => []
  | c :: rest => c :: (extra (k + 1) ++ spacedFrom extra (k + 1) rest)

/-- The text with more put in front of it and behind each of its characters. -/
def spaced (extra : Nat → List Char) (source : List Char) : List Char :=
  extra 0 ++ spacedFrom extra 0 source

/-- Where the character behind the first `k` of the text is found in the text with more in it. -/
def offset (extra : Nat → List Char) : Nat → Nat
  | 0 => (extra 0).length
  | k + 1 => offset extra k + 1 + (extra (k + 1)).length

theorem drop_spaced (extra : Nat → List Char) (within : k ≤ source.length) :
    (spaced extra source).drop (offset extra k) = spacedFrom extra k (source.drop k) := by
  induction k with
  | zero => exact List.drop_left
  | succ k ih =>
    have here := List.drop_eq_getElem_cons (Nat.lt_of_succ_le within)
    rw [offset, ← List.drop_drop, ← List.drop_drop, ih (Nat.le_of_succ_le within), here]
    exact List.drop_left

/-- In front of that is what was put there. -/
theorem drop_spaced_gap (extra : Nat → List Char) (within : k + 1 ≤ source.length) :
    (spaced extra source).drop (offset extra k + 1) =
      extra (k + 1) ++ spacedFrom extra (k + 1) (source.drop (k + 1)) := by
  have here := List.drop_eq_getElem_cons (Nat.lt_of_succ_le within)
  rw [← List.drop_drop, drop_spaced extra (Nat.le_of_succ_le within), here]
  rfl

theorem strictMono_offset (extra : Nat → List Char) : StrictMono (offset extra) :=
  strictMono_nat_of_lt_succ fun k => by
    rw [offset]
    omega

theorem length_spacedFrom (extra : Nat → List Char) (k : Nat) (source : List Char) :
    source.length ≤ (spacedFrom extra k source).length := by
  induction source generalizing k with
  | nil => exact Nat.le_refl _
  | cons c rest ih =>
    have := ih (k + 1)
    simp only [spacedFrom, List.length_cons, List.length_append]
    omega

theorem length_spaced (extra : Nat → List Char) (source : List Char) :
    source.length ≤ (spaced extra source).length := by
  have := length_spacedFrom extra 0 source
  rw [spaced, List.length_append]
  omega

/-- Where nothing is put in, characters stay together. -/
theorem offset_add {n : Nat} (none : ∀ i, 0 < i → i ≤ n → extra (k + i) = []) :
    offset extra (k + n) = offset extra k + n := by
  induction n with
  | zero => rfl
  | succ n ih =>
    rw [← Nat.add_assoc, offset, ih fun i some bound => none i some (Nat.le_succ_of_le bound),
      Nat.add_assoc k n 1, none (n + 1) (Nat.succ_pos n) (Nat.le_refl _)]
    rfl

theorem spacedFrom_append {front rest : List Char} (some : front ≠ [])
    (none : ∀ i, 0 < i → i < front.length → extra (k + i) = []) :
    spacedFrom extra k (front ++ rest) = front ++
      (extra (k + front.length) ++ spacedFrom extra (k + front.length) rest) := by
  induction front generalizing k with
  | nil => exact absurd rfl some
  | cons c front ih =>
    cases front with
    | nil => rfl
    | cons d front =>
      have here : extra (k + 1) = [] := none 1 (Nat.one_pos) (by simp)
      have later := ih (k := k + 1) (List.cons_ne_nil _ _) fun i pos bound => by
        rw [Nat.add_assoc, Nat.add_comm 1]
        exact none (i + 1) (Nat.succ_pos i) (Nat.succ_lt_succ bound)
      have length : k + 1 + (d :: front).length = k + (c :: d :: front).length := by
        simp only [List.length_cons]
        omega
      rw [length] at later
      rw [List.cons_append, spacedFrom, here, List.nil_append, later]
      rfl

theorem spacedFrom_eq {rest : List Char} (none : ∀ i, 0 < i → i ≤ rest.length → extra (k + i) = []) :
    spacedFrom extra k rest = rest := by
  induction rest generalizing k with
  | nil => rfl
  | cons c rest ih =>
    have here : extra (k + 1) = [] := none 1 Nat.one_pos (by simp)
    rw [spacedFrom, here, List.nil_append, ih fun i pos bound => by
      rw [Nat.add_assoc, Nat.add_comm 1]
      exact none (i + 1) (Nat.succ_pos i) (Nat.succ_le_succ bound)]

theorem spacedFrom_finish {rest : List Char} (some : rest ≠ [])
    (none : ∀ i, 0 < i → i < rest.length → extra (k + i) = []) :
    spacedFrom extra k rest = rest ++ extra (k + rest.length) := by
  have whole := @spacedFrom_append _ _ _ [] some none
  rw [List.append_nil] at whole
  rw [whole]
  simp [spacedFrom]

/-- What is put in begins with a blank. -/
def Spacious (extra : Nat → List Char) : Prop :=
  ∀ i, extra i = [] ∨ ∃ layout, Layout layout ∧ extra i = ' ' :: layout

theorem Spacious.layout (spacious : Spacious extra) (i : Nat) : Layout (extra i) := by
  rcases spacious i with none | ⟨layout, filled, same⟩
  · exact none ▸ .nil
  · exact same ▸ .blank rfl filled

theorem Spacious.loose (spacious : Spacious extra) (k : Nat) (rest : List Char) :
    Lexeme.Loose rest (extra k ++ spacedFrom extra k rest) := by
  induction rest generalizing k with
  | nil =>
    rcases spacious k with none | ⟨layout, -, same⟩
    · exact .inl (by rw [none]; rfl)
    · exact .inr ⟨[], [], layout ++ spacedFrom extra k [], rfl, by rw [same]; rfl⟩
  | cons c rest ih =>
    rcases spacious k with none | ⟨layout, -, same⟩
    · rw [none]
      exact (ih (k + 1)).append [c]
    · exact .inr ⟨[], c :: rest, layout ++ spacedFrom extra k (c :: rest), rfl, by rw [same]; rfl⟩

/-! ### Places -/

namespace Position

theorem before_behind_succ (source : List Char) (k : Nat) :
    (behind source k).Before (behind source (k + 1)) := by
  cases here : source[k]? with
  | some c =>
    rw [← after_behind here]
    exact before_after ..
  | none =>
    have inLine : endsLine source k = false := by simp [endsLine, here]
    refine .inr ⟨?_, ?_⟩
    · simp [behind, List.range_succ, inLine]
    · simp [behind, List.range_succ, inLine]

theorem before_behind {source : List Char} {k n : Nat} (less : k < n) :
    (behind source k).Before (behind source n) := by
  induction less with
  | refl => exact before_behind_succ source k
  | step _ ih => exact ih.trans (before_behind_succ source _)

theorem Before.compare_eq_lt {a b : Position} (before : a.Before b) : a.compare b = .lt := by
  unfold Position.compare
  rcases before with line | ⟨line, column⟩
  · rw [Nat.compare_eq_lt.mpr line]
    rfl
  · rw [Nat.compare_eq_eq.mpr line, Nat.compare_eq_lt.mpr column]
    rfl

theorem Before.compare_eq_gt {a b : Position} (before : a.Before b) : b.compare a = .gt := by
  unfold Position.compare
  rcases before with line | ⟨line, column⟩
  · rw [Nat.compare_eq_gt.mpr line]
    rfl
  · rw [Nat.compare_eq_eq.mpr line.symm, Nat.compare_eq_gt.mpr column]
    rfl

/-- Places in a text come as the characters do. -/
theorem compare_behind (source : List Char) (k n : Nat) :
    (behind source k).compare (behind source n) = compare k n := by
  rcases Nat.lt_trichotomy k n with less | rfl | more
  · rw [Nat.compare_eq_lt.mpr less, (before_behind less).compare_eq_lt]
  · rw [Nat.compare_eq_eq.mpr rfl]
    simp [Position.compare]
  · rw [Nat.compare_eq_gt.mpr more, (before_behind more).compare_eq_gt]

theorem behind_injective (source : List Char) : Function.Injective (behind source) := by
  intro k n same
  rcases Nat.lt_trichotomy k n with less | rfl | more
  · exact absurd same (before_behind less).ne
  · rfl
  · exact absurd same.symm (before_behind more).ne

end Position

/-- The places of a text and those of the same characters in the text with more in it. -/
def Moved (extra : Nat → List Char) (source : List Char) (place other : Position) : Prop :=
  ∃ k, place = .behind source k ∧ other = .behind (spaced extra source) (offset extra k)

end JavaFrontend
