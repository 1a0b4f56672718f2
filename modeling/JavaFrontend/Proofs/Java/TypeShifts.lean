import JavaFrontend.Proofs.Java.Goals

/-!
Where shifts can come in types. All that can stand in a type but for annotations is made of names
that have no shift in them, so no shift can come where no `@` has come before (`stuck_of_type`).
-/

namespace JavaFrontend

/-! ### Rows without shifts -/

/-- Up to the first `@` the row has no shift, and only names that are safe. -/
def Sheltered (safe : String → Prop) : List Part → Prop
  | [] => True
  | .token kind :: rest => kind = .at ∨ kind.isRightShift = false ∧ Sheltered safe rest
  | .rule name :: rest => safe name ∧ Sheltered safe rest

namespace Sheltered

variable {safe : String → Prop} {row front back first second : List Part} {kinds : List Kind}
  {name : String}

theorem append (sheltered : Sheltered safe front) (others : Sheltered safe back) :
    Sheltered safe (front ++ back) := by
  induction front with
  | nil => exact others
  | cons part front ih =>
    cases part with
    | token kind => exact sheltered.imp_right fun more => ⟨more.1, ih more.2⟩
    | rule name => exact ⟨sheltered.1, ih sheltered.2⟩

/-- So it is if a safe name is replaced by such a row. -/
theorem replace (parts : List Part) (inner : safe name → Sheltered safe parts)
    (sheltered : Sheltered safe (front ++ .rule name :: back)) :
    Sheltered safe (front ++ parts ++ back) := by
  induction front with
  | nil => exact (inner sheltered.1).append sheltered.2
  | cons part front ih =>
    cases part with
    | token kind => exact sheltered.imp_right fun more => ⟨more.1, ih more.2⟩
    | rule name => exact ⟨sheltered.1, ih sheltered.2⟩

/-- A shift comes behind an `@`. -/
theorem at_mem_of_shift {kind : Kind} (shift : kind.isRightShift)
    (sheltered : Sheltered safe (kinds.map .token ++ .token kind :: back)) :
    Kind.at ∈ kinds ∨ kind = .at := by
  induction kinds with
  | nil =>
    refine .inr (sheltered.resolve_right fun other => ?_)
    rw [other.1] at shift
    cases shift
  | cons first kinds ih =>
    rcases sheltered with rfl | more
    · exact .inl List.mem_cons_self
    · exact (ih more.2).imp_left (List.mem_cons_of_mem first)

variable {grammar : Grammar}

theorem derives (rules : ∀ rule ∈ grammar.rules, safe rule.name → Sheltered safe rule.parts)
    (sheltered : Sheltered safe first) (derived : grammar.Derives first second) :
    Sheltered safe second := by
  induction derived with
  | refl => exact sheltered
  | tail _ step ih =>
    obtain ⟨before, after, known⟩ := step
    exact ih.replace _ (rules _ known)

/-- If safe names stand for rows without shifts, no shift can come before an `@`. -/
theorem not_viable (rules : ∀ rule ∈ grammar.rules, safe rule.name → Sheltered safe rule.parts)
    (start : safe grammar.start) {kind : Kind} (shift : kind.isRightShift)
    (none : Kind.at ∉ kinds) : ¬ grammar.Viable (kinds ++ [kind]) := by
  rintro ⟨rest, derived⟩
  have row : Sheltered safe [.rule grammar.start] := ⟨start, trivial⟩
  have whole := derives rules row derived
  rw [List.map_append, List.map_singleton, List.append_assoc, List.singleton_append] at whole
  rcases whole.at_mem_of_shift shift with member | rfl
  · exact none member
  · cases shift

end Sheltered

/-! ### The rules for types -/

namespace Java

open Element

/-- The names for types and their parts. -/
def typeNames : List String := [
  "Type", "PrimitiveType", "ReferenceType", "ClassType", "SimpleClassType", "ArrayType", "Dims",
  "TypeArguments", "TypeArgument", "Wildcard", "Annotation"]

/-- Whether a row has only such names in it, and no shifts. -/
def flatRow (elements : List Element) : Bool :=
  elements.all fun
    | .token kind => !kind.isRightShift
    | .rule name => typeNames.contains name
    | .optional _ | .repeated _ => false

/-- Whether a row has only such names in it and in its groups, and no shifts. -/
def shelteredRow (elements : List Element) : Bool :=
  elements.all fun
    | .token kind => !kind.isRightShift
    | .rule name => typeNames.contains name
    | .optional body | .repeated body => flatRow body

/-- Every alternative for types has, or begins with an `@`. -/
theorem sheltered_rules : ∀ alternative ∈ Grammar.rules, typeNames.contains alternative.name →
    shelteredRow alternative.elements ∨ alternative.elements.head? = some (.token .at) := by
  decide +kernel

/-- The names of types and of repetitions in them, and the goal. -/
def IsSafe (repetitions : Repetitions) (name : String) : Prop :=
  name = Grammar.goalName ∨ name ∈ typeNames ∨ ∃ body, (body, name) ∈ repetitions ∧ flatRow body

variable {repetitions : Repetitions} {elements : List Element} {parts : Production} {name : String}

theorem shelteredRow_of_flatRow (flat : flatRow elements) : shelteredRow elements := by
  refine List.all_eq_true.mpr fun element member => ?_
  have plain := List.all_eq_true.mp flat element member
  cases element with
  | token | rule => exact plain
  | optional | repeated => cases plain

theorem sheltered_of_spells (spelled : Spells repetitions elements parts)
    (row : shelteredRow elements) : Sheltered (IsSafe repetitions) parts := by
  induction spelled with
  | nil => trivial
  | token kind _ ih =>
    simp only [shelteredRow, List.all_cons, Bool.and_eq_true] at row
    exact .inr ⟨by simpa using row.1, ih row.2⟩
  | rule name _ ih =>
    simp only [shelteredRow, List.all_cons, Bool.and_eq_true] at row
    exact ⟨.inr (.inl (by simpa using row.1)), ih row.2⟩
  | skip _ _ ih | never _ _ ih =>
    simp only [shelteredRow, List.all_cons, Bool.and_eq_true] at row
    exact ih row.2
  | take _ _ insideIh restIh =>
    simp only [shelteredRow, List.all_cons, Bool.and_eq_true] at row
    exact (insideIh (shelteredRow_of_flatRow row.1)).append (restIh row.2)
  | some named _ ih =>
    simp only [shelteredRow, List.all_cons, Bool.and_eq_true] at row
    exact ⟨.inr (.inr ⟨_, named, row.1⟩), ih row.2⟩

variable {goal : Element} {expansion : Expansion} {grammar : JavaFrontend.Grammar}

/-- The rules of safe names have no shifts before an `@`. -/
theorem sheltered_of_rule (isFor : IsFor goal expansion grammar) (isType : goal = .rule "Type")
    {rule : Rule} (known : rule ∈ grammar.rules)
    (safe : IsSafe expansion.repetitions rule.name) :
    Sheltered (IsSafe expansion.repetitions) rule.parts := by
  obtain ⟨name, parts⟩ := rule
  have single : ∀ name ∈ Grammar.goalName :: typeNames, ¬ TreeBuilder.isRepetition name := by
    decide
  have repeated {body : List Element} (named : (body, name) ∈ expansion.repetitions) :
      flatRow body := by
    have repetition := isFor.named.names _ _ named
    rcases safe with rfl | among | ⟨other, also, flat⟩
    · exact absurd repetition (single _ List.mem_cons_self)
    · exact absurd repetition (single _ (List.mem_cons_of_mem _ among))
    · rwa [isFor.named.unique _ _ _ named also]
  have origin : Expansion.Origin _ _ name parts :=
    isFor.faithful.sound.origins _ parts (isFor.rules _ known)
  cases origin with
  | once named spelled =>
    exact sheltered_of_spells spelled (shelteredRow_of_flatRow (repeated named))
  | again named spelled =>
    exact ⟨safe, sheltered_of_spells spelled (shelteredRow_of_flatRow (repeated named))⟩
  | @alternative origin _ among same spelled =>
    rcases List.mem_cons.mp among with rfl | among
    · exact sheltered_of_spells spelled (by rw [isType]; decide)
    · have shape := (Grammar.shapeOf_of_mem_rules among).1
      have type : name ∈ typeNames := by
        rcases safe with rfl | type | ⟨body, named, -⟩
        · rw [same, Reduction.shapeOf_goalName] at shape
          cases shape
        · exact type
        · rw [same, Reduction.shapeOf_of_isRepetition (isFor.named.names _ _ named)] at shape
          cases shape
      rcases sheltered_rules origin among (by simpa [same] using type) with row | begins
      · exact sheltered_of_spells spelled row
      · obtain ⟨rest, row⟩ := List.head?_eq_some_iff.mp begins
        rw [row] at spelled
        cases spelled with
        | token kind rest => exact .inl rfl

/-- In a type no shift can come before an `@`. -/
theorem stuck_of_type (isFor : IsFor goal expansion grammar) (isType : goal = .rule "Type")
    {kinds : List Kind} {kind : Kind} (shift : kind.isRightShift) (none : Kind.at ∉ kinds) :
    ¬ grammar.Viable (kinds ++ [kind]) :=
  Sheltered.not_viable (fun _ known safe => sheltered_of_rule isFor isType known safe)
    (.inl isFor.start) shift none

end Java

end JavaFrontend
