import JavaFrontend.Java.Reduction.Types
import JavaFrontend.Proofs.Place.Blind

/-!
The reductions for names, types and annotations, and those that serve rules of several themes, are
blind to places.
-/

namespace JavaFrontend.Java.Reduction

open OperandM

theorem blind_first : Blind first := blind_next

theorem blind_empty : Blind empty := blind_token.bind fun _ => .pure rfl

theorem blind_list : Blind list :=
  blind_rule.bind fun _ => blind_items.bind fun nodes => 
    .pure (congrArg _ (unplacedAll_eq nodes))

/-! ### Names and types -/

theorem blind_dottedName : Blind dottedName :=
  blind_identifier.bind fun _ => blind_items.bind fun nodes =>
    (alike_allAs selects_identifier _ nodes).bind fun _ => .pure rfl

theorem selects_token : Selects token? := fun node => by cases node <;> rfl

theorem blind_primitiveType : Blind primitiveType := by
  refine blind_peek.bind fun node => ?_
  have asked : (unplaced node).bind token? = unplaced (node.bind token?) := by
    cases node with
    | none => rfl
    | some node => exact selects_token node
  rw [asked]
  cases node.bind token? with
  | some token => exact blind_next.bind fun _ => .pure rfl
  | none =>
    refine (blind_takeUntil fun node => ?_).bind fun nodes => ?_
    · rw [selects_type]
      cases type? node <;> rfl
    rw [flatMap_items_unplaced]
    refine (alike_allAs selects_annotationUse _ _).bind fun annotations =>
      blind_type.bind fun type => ?_
    cases type with
    | primitiveType others kind position => 
      refine .pure ?_
      rw [toList_unplaced, ← unplaced_append, ofList_unplaced]
      rfl
    | _ => exact .pure rfl

theorem selects_segments : Selects segments? := by
  intro node
  cases node with
  | type type =>
    cases type with
    | classType segments => exact congrArg some (toList_unplaced segments)
    | _ => rfl
  | _ => rfl

theorem blind_classType : Blind classType := by
  refine blind_types.bind fun types => ?_
  have nodes : (unplaced types).map Node.type = unplaced (types.map Node.type) := by
    induction types with
    | nil => rfl
    | cons type types ih => exact congrArg (Node.type type.unplaced :: ·) ih
  rw [nodes]
  refine (alike_allAs selects_segments _ _).bind fun segments => .pure ?_
  have flat : (unplaced segments).flatten = unplaced segments.flatten :=
    List.map_flatten.symm
  rw [flat, ofList_unplaced]
  rfl

theorem blind_simpleClassType : Blind simpleClassType :=
  blind_annotations.bind fun _ => blind_identifier.bind fun _ =>
    blind_typeArguments.bind fun _ => .pure (by simp only [ofList_unplaced]; rfl)

theorem blind_arrayType : Blind arrayType :=
  blind_type.bind fun type => blind_dims.bind fun dims =>
    .pure (congrArg Node.type (withDims_unplaced type dims).symm)

theorem blind_arrayDims : Blind arrayDims := blind_dims.bind fun _ => .pure rfl

theorem selects_typeArgument : Selects typeArgument? := fun node => by cases node <;> rfl

theorem blind_typeArgumentList : Blind typeArgumentList :=
  blind_items.bind fun nodes => (alike_allAs selects_typeArgument _ nodes).bind fun _ => .pure rfl

/-- Whether a token was there does not depend on places. -/
theorem isSome_unplaced {α : Type} [Placed α] (value : Option α) :
    (unplaced value).isSome = value.isSome := Option.isSome_map

theorem blind_wildcard : Blind wildcard :=
  (blind_expect _).bind fun _ => (blind_eat _).bind fun extending => by
    rw [isSome_unplaced]
    refine .ite (blind_type.bind fun _ => .pure rfl) ((blind_eat _).bind fun super => ?_)
    rw [isSome_unplaced]
    exact .ite (blind_type.bind fun _ => .pure rfl) (.pure rfl)

theorem blind_typeParameterList : Blind typeParameterList :=
  blind_items.bind fun nodes =>
    (alike_allAs (fun node => by cases node <;> rfl) _ nodes).bind fun _ => .pure rfl

theorem blind_typeParameter : Blind typeParameter :=
  blind_annotations.bind fun annotations => blind_identifier.bind fun name =>
    (blind_eat _).bind fun extending => by
      rw [isSome_unplaced]
      exact .ite (blind_types.bind fun _ => .pure (by simp only [ofList_unplaced]; rfl))
        (.pure (by simp only [ofList_unplaced]; rfl))

theorem blind_additionalBound : Blind additionalBound :=
  (blind_expect _).bind fun _ => blind_type.bind fun _ => .pure rfl

/-! ### Annotations -/

theorem selects_elementValue : Selects elementValue? := fun node => by cases node <;> rfl

theorem selects_elementPair : Selects elementPair? := fun node => by cases node <;> rfl

theorem blind_annotationUse : Blind annotationUse := by
  refine (blind_expect _).bind fun _ => blind_name.bind fun name => blind_items.bind fun nodes => ?_
  cases nodes with
  | nil => exact .pure rfl
  | cons argument more =>
    rw [unplaced_cons]
    dsimp only
    rw [selects_elementPair]
    cases elementPair? argument with
    | some pair =>
      exact (alike_allAs selects_elementPair _ more).bind fun pairs =>
        .pure (by rw [← unplaced_cons, ofList_unplaced]; rfl)
    | none => exact (alike_ofNode selects_elementValue _ argument).bind fun _ => .pure rfl

theorem blind_elementPair : Blind elementPair :=
  blind_identifier.bind fun _ => (blind_expect _).bind fun _ =>
    (blind_nextAs selects_elementValue _).bind fun _ => .pure rfl

theorem blind_elementArray : Blind elementArray :=
  blind_items.bind fun nodes => (alike_allAs selects_elementValue _ nodes).bind fun _ =>
    .pure (by simp only [ofList_unplaced]; rfl)

theorem blind_modifier : Blind modifier := blind_token.bind fun _ => .pure rfl

end JavaFrontend.Java.Reduction
