import JavaFrontend.Java.Tree
import Mathlib.Data.List.Induction

/-!
Expressions that are names with binary operators between them. Operators that bind tighter stand
inside of those that bind less, and of those that bind alike the earlier stand inside of the later
(`Grouped`). Of all ways to group the same names and operators, one is like that
(`exists_grouped`, `eq_of_grouped`).
-/

namespace JavaFrontend

/-- The binary operators by how tight they bind, those of each row tighter than those before. -/
def operatorLevels : List (List Kind) := [
  [.orOr], [.andAnd], [.bar], [.caret], [.ampersand], [.equalEqual, .notEqual],
  [.less, .greater, .lessEqual, .greaterEqual], [.leftShift, .rightShift, .unsignedShift],
  [.plus, .minus], [.star, .slash, .percent]]

/-- Those that take two values. -/
def binaryOperators : List Kind := operatorLevels.flatten

/-- How tight a binary operator binds. -/
def Kind.level (operator : Kind) : Nat := operatorLevels.findIdx (·.contains operator)

namespace Java

/-- The names in the expression from left to right, if it is made of names and binary operators. -/
def Tree.operands {category : Category} : Tree category → List QualifiedName
  | .nameExpr name => [name]
  | .binary left _ right => left.operands ++ right.operands
  | _ => []

/-- The operators between them. -/
def Tree.operators {category : Category} : Tree category → List Kind
  | .binary left operator right => left.operators ++ operator :: right.operators
  | _ => []

/-- The operator that takes the values of all others. -/
def Tree.operator? {category : Category} : Tree category → Option Kind
  | .binary _ operator _ => some operator
  | _ => none

/-- The expression is made of names and of binary operators. None of those inside the left side of
an operator binds less than it, and all inside its right side bind tighter. -/
inductive Grouped : Expr → Prop where
  | name (name : QualifiedName) : Grouped (.nameExpr name)
  | binary {left right : Expr} {operator : Kind} (known : operator ∈ binaryOperators)
      (inLeft : Grouped left) (inRight : Grouped right)
      (before : ∀ inner ∈ left.operator?, operator.level ≤ inner.level)
      (behind : ∀ inner ∈ right.operator?, operator.level < inner.level) :
    Grouped (.binary left operator right)

section Reading

variable (name : QualifiedName) (left right : Expr) (operator : Kind)

@[simp] theorem operands_name : (Tree.nameExpr name).operands = [name] := rfl

@[simp] theorem operators_name : (Tree.nameExpr name).operators = [] := rfl

@[simp] theorem operator?_name : (Tree.nameExpr name).operator? = none := rfl

@[simp] theorem operands_binary :
    (Tree.binary left operator right).operands = left.operands ++ right.operands := rfl

@[simp] theorem operators_binary :
    (Tree.binary left operator right).operators = left.operators ++ operator :: right.operators :=
  rfl

@[simp] theorem operator?_binary : (Tree.binary left operator right).operator? = some operator :=
  rfl

end Reading

namespace Grouped

variable {tree other : Expr}

theorem length_operands (grouped : Grouped tree) :
    tree.operands.length = tree.operators.length + 1 := by
  induction grouped with
  | name => rfl
  | binary _ _ _ _ _ leftIh rightIh =>
    simp only [operands_binary, operators_binary, List.length_append, List.length_cons]
    omega

/-- No operator of the expression binds less than its own. -/
theorem level_le (grouped : Grouped tree) :
    ∀ inner ∈ tree.operators, ∃ outer ∈ tree.operator?, outer.level ≤ inner.level := by
  induction grouped with
  | name => simp
  | @binary left right operator _ _ _ before behind leftIh rightIh =>
    intro inner member
    refine ⟨operator, rfl, ?_⟩
    rw [operators_binary, List.mem_append, List.mem_cons] at member
    rcases member with inLeft | rfl | inRight
    · obtain ⟨outer, isOuter, le⟩ := leftIh inner inLeft
      exact Nat.le_trans (before outer isOuter) le
    · exact Nat.le_refl _
    · obtain ⟨outer, isOuter, le⟩ := rightIh inner inRight
      exact Nat.le_trans (Nat.le_of_lt (behind outer isOuter)) le

/-- So the operator of the expression is the last of those that bind least: all before it bind as
tight, and all behind it tighter. -/
theorem level_of_binary {left right : Expr} {operator : Kind}
    (grouped : Grouped (.binary left operator right)) :
    (∀ inner ∈ left.operators, operator.level ≤ inner.level) ∧
      ∀ inner ∈ right.operators, operator.level < inner.level := by
  cases grouped with
  | binary _ inLeft inRight before behind =>
    refine ⟨fun inner member => ?_, fun inner member => ?_⟩
    · obtain ⟨outer, isOuter, le⟩ := inLeft.level_le inner member
      exact Nat.le_trans (before outer isOuter) le
    · obtain ⟨outer, isOuter, le⟩ := inRight.level_le inner member
      exact Nat.lt_of_lt_of_le (behind outer isOuter) le

end Grouped

/-- The last of the operators that bind least shows where the row of them is divided. -/
theorem divided_alike {front back front' back' : List Kind} {operator operator' : Kind}
    (same : front ++ operator :: back = front' ++ operator' :: back')
    (behind : ∀ inner ∈ back, operator.level < inner.level)
    (before' : ∀ inner ∈ front', operator'.level ≤ inner.level) :
    ∃ between, front = front' ++ between := by
  rcases List.append_eq_append_iff.mp same with ⟨between, rfl, rest⟩ | ⟨between, rfl, -⟩
  · cases between with
    | nil => exact ⟨[], by simp⟩
    | cons first between =>
      -- Each of the two operators would have to bind tighter than the other.
      obtain ⟨rfl, rfl⟩ := List.cons.inj rest
      have tighter := behind operator' (by simp)
      have looser := before' operator (by simp)
      omega
  · exact ⟨between, rfl⟩

/-- Names and operators are grouped in one way. -/
theorem eq_of_grouped {tree other : Expr} (grouped : Grouped tree) (grouped' : Grouped other)
    (operands : other.operands = tree.operands) (operators : other.operators = tree.operators) :
    other = tree := by
  induction grouped generalizing other with
  | name =>
    cases grouped' with
    | name => simpa using operands
    | binary => simp at operators
  | @binary left right operator known inLeft inRight before behind leftIh rightIh =>
    cases grouped' with
    | name => simp at operators
    | @binary left' right' operator' known' inLeft' inRight' before' behind' =>
      obtain ⟨least, tighter⟩ := (Grouped.binary known inLeft inRight before behind).level_of_binary
      obtain ⟨least', tighter'⟩ :=
        (Grouped.binary known' inLeft' inRight' before' behind').level_of_binary
      rw [operators_binary, operators_binary] at operators
      obtain ⟨more, front⟩ := divided_alike operators tighter' least
      obtain ⟨more', front'⟩ := divided_alike operators.symm tighter least'
      have none : more = [] := by
        have lengths := congrArg List.length front'
        rw [front] at lengths
        simp only [List.length_append] at lengths
        exact List.eq_nil_of_length_eq_zero (by omega)
      rw [none, List.append_nil] at front
      rw [front, List.append_cancel_left_eq] at operators
      obtain ⟨rfl, back⟩ := List.cons.inj operators
      have size : left'.operands.length = left.operands.length := by
        rw [inLeft'.length_operands, inLeft.length_operands, front]
      obtain ⟨first, second⟩ := List.append_inj operands size
      rw [leftIh inLeft' first front, rightIh inRight' second back]

/-- One more operator and one more name behind an expression. -/
theorem Grouped.extend {tree : Expr} (grouped : Grouped tree) {operator : Kind}
    (known : operator ∈ binaryOperators) (name : QualifiedName) :
    ∃ longer, Grouped longer ∧ longer.operands = tree.operands ++ [name] ∧
      longer.operators = tree.operators ++ [operator] ∧
      ∀ outer ∈ longer.operator?, outer = operator ∨ outer ∈ tree.operator? := by
  induction grouped with
  | name first =>
    exact ⟨_, .binary known (.name first) (.name name) (by simp) (by simp), rfl, rfl, by simp⟩
  | @binary left right outer known' inLeft inRight before behind _ rightIh =>
    by_cases tighter : outer.level < operator.level
    · obtain ⟨longer, grouped, operands, operators, either⟩ := rightIh
      refine ⟨_, .binary known' inLeft grouped before fun inner isInner => ?_, ?_, ?_, by simp⟩
      · rcases either inner isInner with rfl | old
        · exact tighter
        · exact behind inner old
      · simp [operands]
      · simp [operators]
    · refine ⟨_, .binary known (.binary known' inLeft inRight before behind) (.name name) ?_
        (by simp), rfl, rfl, by simp⟩
      rintro _ ⟨⟩
      omega

/-- Names and operators can be grouped so. -/
theorem exists_grouped (first : QualifiedName) (rest : List (Kind × QualifiedName))
    (known : ∀ step ∈ rest, step.1 ∈ binaryOperators) :
    ∃ tree, Grouped tree ∧ tree.operands = first :: rest.map (·.2) ∧
      tree.operators = rest.map (·.1) := by
  induction rest using List.reverseRecOn with
  | nil => exact ⟨_, .name first, rfl, rfl⟩
  | append_singleton rest step ih =>
    obtain ⟨earlier, last⟩ := List.forall_mem_append.mp known
    obtain ⟨tree, grouped, operands, operators⟩ := ih earlier
    obtain ⟨longer, grouped, operands', operators', -⟩ :=
      grouped.extend (last step (by simp)) step.2
    exact ⟨longer, grouped, by simp [operands', operands], by simp [operators', operators]⟩

end Java

end JavaFrontend
