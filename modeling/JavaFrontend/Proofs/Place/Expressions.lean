import JavaFrontend.Java.Reduction.Expressions
import JavaFrontend.Proofs.Place.Statements

/-!
The reductions for expressions are blind to places.
-/

namespace JavaFrontend.Java.Reduction

open OperandM

theorem blind_primary : Blind primary :=
  (blind_eat _).bind fun this => by
    cases this with
    | some this => exact .pure rfl
    | none =>
      exact (blind_eat _).bind fun paren => by
        rw [isSome_unplaced]
        exact .ite (blind_expr.bind fun _ => .pure rfl) (blind_name.bind fun _ => .pure rfl)

theorem namedType_unplaced (name : QualifiedName) :
    namedType (unplaced name) = (namedType name).unplaced := by
  have segments (parts : List Identifier) :
      Row.ofList ((unplaced parts).map fun part => Tree.segment .nil part .nil) =
        (Row.ofList (parts.map fun part => Tree.segment .nil part .nil)).unplaced := by
    induction parts with
    | nil => rfl
    | cons part parts ih => exact congrArg (Row.cons (.segment .nil (unplaced part) .nil)) ih
  exact congrArg Tree.classType (segments name.parts)

/-- Without places no type is anywhere. -/
theorem place_unplaced : (type : TypeExpr) → type.unplaced.place = default
  | .primitiveType .. => rfl
  | .classType .nil => rfl
  | .classType (.cons (.segment ..) _) => rfl
  | .arrayType element _ => place_unplaced element

theorem selects_classLiteralType : Selects classLiteralType? := by
  intro node
  cases node with
  | name part => exact congrArg (fun type => some (some type, default)) (namedType_unplaced part)
  | type part => exact congrArg (fun place => some (some part.unplaced, place)) (place_unplaced part)
  | _ => rfl

theorem blind_classLiteral : Blind classLiteral :=
  (blind_nextAs selects_classLiteralType _).bind fun (type, position) =>
    blind_dims.bind fun dims => .pure (by
      change _ = Node.expr (.classLiteral (Optional.ofOption (Option.map _ (unplaced type))) _)
      rw [map_withDims_unplaced, ofOption_unplaced]
      rfl)

/-! ### Objects and arrays -/

theorem blind_qualifiedCreation : Blind qualifiedCreation :=
  blind_expr.bind fun outer => (blind_expect _).bind fun _ => blind_expr.bind fun created => by
    cases created with
    | creation => exact .pure rfl
    | _ => exact alike_mismatch _ (.expr _)

theorem blind_creation : Blind creation :=
  (blind_expect _).bind fun _ => blind_typeArguments.bind fun _ => blind_type.bind fun _ =>
    (blind_take fun node => by cases node <;> rfl).bind fun diamond =>
      blind_arguments.bind fun _ => (blind_take selects_classBody).bind fun _ =>
        .pure (by
          rw [isSome_unplaced]
          simp only [ofList_unplaced, ofOption_unplaced]
          rfl)

theorem blind_diamond : Blind diamond := .pure rfl

theorem blind_argumentList : Blind argumentList := blind_exprs.bind fun _ => .pure rfl

theorem blind_arrayInitializer : Blind arrayInitializer :=
  blind_exprs.bind fun _ => .pure (by rw [ofList_unplaced]; rfl)

theorem blind_arrayCreation : Blind arrayCreation :=
  (blind_expect _).bind fun _ => blind_type.bind fun element => blind_next.bind fun node => by
    have lengths (node : Node) : Alike
        (do
          let lengths ← exprsOf node
          return Node.expr (.newArray element lengths (← dims)))
        (do
          let lengths ← exprsOf (unplaced node)
          return Node.expr (.newArray (unplaced element) lengths (← dims))) :=
      (alike_exprsOf node).bind fun _ => blind_dims.bind fun _ =>
        .pure (by rw [ofList_unplaced]; rfl)
    cases node with
    | dims count =>
      refine blind_expr.bind fun values => ?_
      cases values with
      | arrayInitializer values => exact .pure rfl
      | _ => exact alike_mismatch _ (.expr _)
    | _ => exact lengths _

theorem blind_dimensionLength : Blind dimensionLength :=
  (blind_expect _).bind fun _ => blind_expr.bind fun _ => .pure rfl

/-! ### Fields and methods -/

theorem blind_receiver (separator : Kind) : Blind (receiver separator) := by
  refine blind_next.bind fun node => ?_
  extract_lets further
  have same (receiver : Tree .receiver) :
      Alike (further receiver) (further (unplaced receiver)) :=
    (blind_expect _).bind fun _ => .pure rfl
  cases node with
  | name name =>
    exact (blind_nextIs _).bind fun _ => (blind_anyIs _).bind fun _ =>
      .ite ((blind_expect _).bind fun _ => (blind_expect _).bind fun _ => .bind (.pure rfl) same)
        (.bind (.pure rfl) same)
  | type type => exact .bind (.pure rfl) same
  | token token =>
    have moved : unplaced (Node.token token) = .token (unplaced token) := rfl
    have chosen := selects_tokenOf .superWord (.token token)
    rw [moved] at chosen ⊢
    dsimp only
    rw [chosen]
    cases tokenOf? .superWord (.token token) with
    | some token => exact .bind (.pure rfl) same
    | none => exact (alike_ofNode selects_expr _ _).bind fun _ => .bind (.pure rfl) same
  | _ => exact (alike_ofNode selects_expr _ _).bind fun _ => .bind (.pure rfl) same

theorem blind_fieldAccess : Blind fieldAccess :=
  (blind_receiver _).bind fun _ => blind_identifier.bind fun _ => .pure rfl

theorem blind_arrayAccess : Blind arrayAccess :=
  blind_expr.bind fun _ => (blind_expect _).bind fun _ => blind_expr.bind fun _ => .pure rfl

theorem last_unplaced (name : QualifiedName) : (unplaced name).last = unplaced name.last := by
  obtain ⟨first, rest⟩ := name
  change (rest.map unplaced).getLastD (unplaced first) = unplaced (rest.getLastD first)
  rw [List.getLastD_eq_getLast?, List.getLastD_eq_getLast?, List.getLast?_map]
  cases rest.getLast? <;> rfl

theorem qualifier?_unplaced (name : QualifiedName) :
    (unplaced name).qualifier? = unplaced name.qualifier? := by
  obtain ⟨first, rest⟩ := name
  cases rest with
  | nil => rfl
  | cons next rest =>
    have front : (unplaced (next :: rest)).dropLast = unplaced (next :: rest).dropLast :=
      List.map_dropLast.symm
    exact congrArg (fun rest => some (QualifiedName.mk (unplaced first) rest)) front

theorem blind_methodInvocation : Blind methodInvocation := by
  refine blind_count.bind fun _ => .ite (blind_name.bind fun name => blind_arguments.bind fun _ => ?_)
    ((blind_receiver _).bind fun _ => blind_typeArguments.bind fun _ =>
      blind_identifier.bind fun _ => blind_arguments.bind fun _ =>
        .pure (by simp only [ofList_unplaced]; rfl))
  rw [qualifier?_unplaced, last_unplaced]
  cases name.qualifier? <;> exact .pure (by simp only [ofList_unplaced]; rfl)

theorem blind_methodReference : Blind methodReference :=
  (blind_receiver _).bind fun _ => blind_typeArguments.bind fun _ =>
    (blind_eat _).bind fun word => by
      rw [isSome_unplaced]
      exact .ite (.pure (by rw [ofList_unplaced]; rfl))
        (blind_identifier.bind fun _ => .pure (by rw [ofList_unplaced]; rfl))

/-! ### Lambdas -/

theorem selects_lambdaParameters : Selects lambdaParameters? := fun node => by cases node <;> rfl

theorem firstParameter?_unplaced : (parameters : Tree .lambdaParameters) →
    firstParameter? parameters.unplaced = unplaced (firstParameter? parameters)
  | .inferredParameters [] | .inferredParameters (_ :: _) => rfl
  | .formalParameters .nil => rfl
  | .formalParameters (.cons (.parameter ..) _) => rfl

theorem blind_lambda : Blind lambda :=
  (blind_nextAs selects_lambdaParameters _).bind fun parameters =>
    (blind_expect _).bind fun arrow => blind_next.bind fun node => by
      have place : (firstParameter? (unplaced parameters)).getD (unplaced arrow).position =
          default := by
        have first := firstParameter?_unplaced parameters
        change firstParameter? (unplaced parameters) = _ at first
        rw [first]
        cases firstParameter? parameters <;> rfl
      rw [place]
      cases node with
      | block body => exact .pure rfl
      | _ => exact (alike_ofNode selects_expr _ _).bind fun _ => .pure rfl

theorem blind_lambdaParameters : Blind lambdaParameters :=
  blind_rest.bind fun nodes => by
    rw [flatMap_items_unplaced]
    refine (alike_allAs (selects_guard fun node => by cases node <;> rfl) _ _).bind fun parts => ?_
    rw [filterMap_unplaced selects_parameter, filterMap_unplaced selects_identifier]
    cases parts.filterMap parameter? with
    | nil => exact .pure rfl
    | cons parameter parameters =>
      exact .pure (by rw [ofList_unplaced]; rfl)

/-! ### Operators -/

theorem blind_assignment : Blind assignment :=
  blind_expr.bind fun _ => blind_token.bind fun _ => blind_expr.bind fun _ => .pure rfl

theorem blind_conditional : Blind conditional :=
  blind_expr.bind fun _ => (blind_expect _).bind fun _ => blind_expr.bind fun _ =>
    (blind_expect _).bind fun _ => blind_expr.bind fun _ => .pure rfl

theorem blind_binary : Blind binary :=
  blind_expr.bind fun _ => blind_token.bind fun _ =>
    .ite (blind_type.bind fun _ => .pure rfl) (blind_expr.bind fun _ => .pure rfl)

theorem blind_leading : Blind leading :=
  blind_token.bind fun _ => blind_expr.bind fun _ => .pure rfl

theorem blind_trailing : Blind trailing :=
  blind_expr.bind fun _ => blind_token.bind fun _ => .pure rfl

theorem blind_cast : Blind cast :=
  (blind_expect _).bind fun _ => blind_type.bind fun _ =>
    (blind_takeUntil fun node => by rw [selects_tokenOf, isSome_unplaced]).bind fun more => by
      rw [flatMap_items_unplaced]
      exact (alike_allAs selects_type _ _).bind fun _ => (blind_expect _).bind fun _ =>
        blind_expr.bind fun _ => .pure (by rw [ofList_unplaced]; rfl)

end JavaFrontend.Java.Reduction
