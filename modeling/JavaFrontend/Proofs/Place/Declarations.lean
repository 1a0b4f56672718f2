import JavaFrontend.Java.Reduction.Declarations
import JavaFrontend.Proofs.Place.Types

/-!
The reductions for compilation units, classes, enumerations and interfaces with their members are
blind to places.
-/

namespace JavaFrontend.Java.Reduction

open OperandM

/-! ### Compilation units -/

theorem selects_package : Selects package? := fun node => by cases node <;> rfl

theorem selects_importing : Selects importing? := fun node => by cases node <;> rfl

theorem selects_typeDeclaration : Selects typeDeclaration? := fun node => by cases node <;> rfl

theorem alike_unitOf (parts : List Node) : Alike (unitOf parts) (unitOf (unplaced parts)) :=
  (alike_allAs (selects_guard fun node => by cases node <;> rfl) _ parts).bind fun parts => by
    refine .pure ?_
    rw [filterMap_unplaced selects_package, filterMap_unplaced selects_importing,
      filterMap_unplaced selects_typeDeclaration, getLast?_unplaced, ofOption_unplaced,
      ofList_unplaced, ofList_unplaced]
    rfl

theorem blind_unitGoal : Blind unitGoal :=
  (blind_nextIs _).bind fun ended => .ite (.pure rfl) (blind_next.bind fun part => by
    cases part with
    | unit unit => exact .pure rfl
    | _ => exact alike_unitOf [_])

theorem blind_compilationUnit : Blind compilationUnit := blind_items.bind alike_unitOf

theorem blind_packageDeclaration : Blind packageDeclaration :=
  blind_annotations.bind fun _ => (blind_expect _).bind fun _ => blind_name.bind fun _ =>
    .pure (by rw [ofList_unplaced]; rfl)

theorem blind_importDeclaration : Blind importDeclaration :=
  (blind_expect _).bind fun _ => (blind_eat _).bind fun static => blind_name.bind fun _ =>
    (blind_anyIs _).bind fun _ => .pure (by rw [isSome_unplaced]; rfl)

/-! ### Types and their bodies -/

theorem blind_superclass : Blind superclass :=
  (blind_expect _).bind fun _ => blind_type.bind fun _ => .pure rfl

theorem blind_interfaces : Blind interfaces :=
  blind_token.bind fun _ => blind_types.bind fun _ => .pure rfl

theorem blind_takeSuperclass : Blind takeSuperclass := blind_take fun node => by cases node <;> rfl

theorem blind_takeInterfaces : Blind takeInterfaces :=
  (blind_take fun node => by cases node <;> rfl).bind alike_getD

theorem blind_takeExceptions : Blind takeExceptions :=
  (blind_take fun node => by cases node <;> rfl).bind alike_getD

theorem selects_classBody : Selects classBody? := fun node => by cases node <;> rfl

theorem blind_classDeclaration : Blind classDeclaration :=
  blind_modifiers.bind fun _ => (blind_expect _).bind fun _ => blind_identifier.bind fun _ =>
    blind_typeParameters.bind fun _ => blind_takeSuperclass.bind fun _ =>
      blind_takeInterfaces.bind fun _ => (blind_nextAs selects_classBody _).bind fun _ =>
        .pure (by simp only [ofList_unplaced, ofOption_unplaced]; rfl)

theorem blind_interfaceDeclaration : Blind interfaceDeclaration :=
  blind_modifiers.bind fun _ => (blind_expect _).bind fun _ => blind_identifier.bind fun _ =>
    blind_typeParameters.bind fun _ => blind_takeInterfaces.bind fun _ =>
      (blind_nextAs selects_classBody _).bind fun _ =>
        .pure (by simp only [ofList_unplaced]; rfl)

theorem alike_membersOf (nodes : List Node) :
    Alike (membersOf nodes) (membersOf (unplaced nodes)) := by
  refine (alike_allAs (fun node => by cases node <;> rfl) _ nodes).bind fun members => .pure ?_
  induction members with
  | nil => rfl
  | cons member members ih =>
    cases member with
    | none => exact ih
    | some member => exact congrArg (member.unplaced :: ·) ih

theorem blind_classBody : Blind classBody :=
  (blind_expect _).bind fun _ => blind_items.bind fun nodes => (alike_membersOf nodes).bind fun _ =>
    .pure (by rw [ofList_unplaced]; rfl)

theorem blind_staticInitializer : Blind staticInitializer :=
  (blind_expect _).bind fun _ => blind_block.bind fun _ => .pure rfl

/-! ### Members -/

theorem selects_declarator : Selects declarator? := fun node => by cases node <;> rfl

theorem blind_varDeclaration : Blind varDeclaration :=
  blind_modifiers.bind fun _ => blind_type.bind fun _ => blind_next.bind fun node => by
    rw [items_unplaced]
    exact (alike_allAs selects_declarator _ _).bind fun _ =>
      .pure (by simp only [ofList_unplaced]; rfl)

theorem blind_fieldDeclaration : Blind fieldDeclaration :=
  blind_varDeclaration.bind fun _ => .pure rfl

theorem blind_variableDeclarator : Blind variableDeclarator :=
  (blind_nextAs selects_declarator _).bind fun declarator => by
    cases declarator with
    | declarator name dims initial =>
      exact (blind_expect _).bind fun _ => blind_expr.bind fun _ => .pure rfl

theorem blind_variableDeclaratorId : Blind variableDeclaratorId :=
  blind_identifier.bind fun _ => blind_dims.bind fun _ => .pure rfl

theorem selects_parameter : Selects parameter? := fun node => by cases node <;> rfl

theorem blind_takeParameters : Blind takeParameters :=
  (blind_take fun node => by
    cases node with
    | list rule items => exact congrArg some (unplacedAll_eq items)
    | _ => rfl).bind fun nodes => by
      have all := alike_allAs selects_parameter "formal parameter" (nodes.getD [])
      cases nodes <;> exact all

theorem selects_result : Selects result? := by
  intro node
  cases node with
  | token part =>
    change (if part.kind = .voidWord then some none else none) =
      unplaced (if part.kind = .voidWord then some none else none)
    split <;> rfl
  | _ => rfl

theorem selects_methodBody : Selects methodBody? := fun node => by cases node <;> rfl

theorem blind_methodDeclaration : Blind methodDeclaration :=
  blind_modifiers.bind fun _ => blind_typeParameters.bind fun _ =>
    (blind_nextAs selects_result _).bind fun _ => blind_identifier.bind fun _ =>
      (blind_expect _).bind fun _ => blind_takeParameters.bind fun _ =>
        (blind_expect _).bind fun _ => blind_dims.bind fun _ =>
          blind_takeExceptions.bind fun _ => (blind_nextAs selects_methodBody _).bind fun _ =>
            .pure (by
              change _ = Node.member (.method _ _ (Optional.ofOption (Option.map _ _)) _ _ _ _)
              rw [map_withDims_unplaced]
              simp only [ofList_unplaced, ofOption_unplaced]
              rfl)

theorem blind_formalParameter : Blind formalParameter :=
  blind_modifiers.bind fun _ => blind_type.bind fun type => (blind_eat _).bind fun ellipsis => by
    rw [isSome_unplaced]
    refine .ite (blind_identifier.bind fun _ => .pure (by rw [ofList_unplaced]; rfl))
      ((blind_nextAs selects_declarator _).bind fun declarator => ?_)
    cases declarator with
    | declarator name dims initial =>
      refine .pure ?_
      rw [ofList_unplaced]
      exact congrArg (fun type => Node.parameter (.parameter _ type _ false))
        (withDims_unplaced type dims).symm

theorem blind_exceptions : Blind exceptions :=
  (blind_expect _).bind fun _ => blind_types.bind fun _ => .pure rfl

theorem blind_constructorDeclaration : Blind constructorDeclaration :=
  blind_modifiers.bind fun _ => blind_typeParameters.bind fun _ => blind_identifier.bind fun _ =>
    (blind_expect _).bind fun _ => blind_takeParameters.bind fun _ => (blind_expect _).bind fun _ =>
      blind_takeExceptions.bind fun _ => blind_block.bind fun _ =>
        .pure (by simp only [ofList_unplaced]; rfl)

theorem blind_constructorCall : Blind constructorCall :=
  blind_takeExpr.bind fun outer => by
    cases outer
    case' some outer => refine (blind_expect _).bind fun _ => ?_
    all_goals
      exact blind_typeArguments.bind fun _ => blind_token.bind fun _ =>
        blind_arguments.bind fun _ => .pure (by simp only [ofList_unplaced]; rfl)

/-! ### Enumerations -/

theorem selects_enumBody : Selects enumBody? := fun node => by cases node <;> rfl

theorem blind_enumDeclaration : Blind enumDeclaration :=
  blind_modifiers.bind fun _ => (blind_expect _).bind fun _ => blind_identifier.bind fun _ =>
    blind_takeInterfaces.bind fun _ => (blind_nextAs selects_enumBody _).bind fun (_, _) =>
      .pure (by simp only [ofList_unplaced]; rfl)

theorem selects_enumConstant : Selects enumConstant? := fun node => by cases node <;> rfl

theorem blind_enumBody : Blind enumBody :=
  (blind_expect _).bind fun _ => blind_items.bind fun nodes =>
    (alike_allAs (selects_guard fun node => by cases node <;> rfl) _ nodes).bind fun parts => by
      refine .pure ?_
      rw [filterMap_unplaced selects_classBody, filterMap_unplaced selects_enumConstant,
        getLast?_unplaced]
      cases (parts.filterMap classBody?).getLast? <;> rfl

theorem blind_enumConstant : Blind enumConstant :=
  blind_annotations.bind fun _ => blind_identifier.bind fun _ =>
    (blind_take selects_arguments).bind fun arguments =>
      (blind_take selects_classBody).bind fun _ => by
        cases arguments <;>
          exact .pure (by simp only [ofList_unplaced, ofOption_unplaced]; rfl)

theorem blind_enumBodyDeclarations : Blind enumBodyDeclarations :=
  (blind_expect _).bind fun _ => blind_items.bind fun nodes => (alike_membersOf nodes).bind fun _ =>
    .pure (by rw [ofList_unplaced]; rfl)

end JavaFrontend.Java.Reduction
