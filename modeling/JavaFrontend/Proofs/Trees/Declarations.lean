import JavaFrontend.Java.Reduction.Declarations
import JavaFrontend.Proofs.Trees.Types

/-!
The reductions for compilation units, classes, enumerations and interfaces with their members keep
what holds of all trees.
-/

namespace JavaFrontend.Java.Reduction

open OperandM

variable {Holds : Subtree → Prop} (free : ∀ subtree : Subtree, subtree.isFree → Holds subtree)

/-! ### Compilation units -/

theorem passes_package : Passes Holds package? := fun {node _} same every => by
  cases node <;> cases same
  exact every

theorem passes_importing : Passes Holds importing? := fun {node _} same every => by
  cases node <;> cases same
  exact every

theorem passes_typeDeclaration : Passes Holds typeDeclaration? := fun {node _} same every => by
  cases node <;> cases same
  exact every

section

include free

theorem keeps_unitOf {parts : List Node} (every : Every Holds parts) :
    Keeps Holds (unitOf parts) := by
  refine (keeps_allAs _ (passes_guard _) every).bind fun parts each =>
    .pure (every_node rfl (free _ rfl) ?_)
  dsimp only [Tree.children]
  simp only [every_append, every_optional, Optional.toOption_ofOption, every_row,
    Row.toList_ofList]
  exact ⟨⟨every_getLast? (every_filterMap passes_package each),
    every_filterMap passes_importing each⟩, every_filterMap passes_typeDeclaration each⟩

theorem keeps_unitGoal : Keeps Holds unitGoal :=
  (keeps_nextIs _).bind fun _ _ => .ite (.pure (every_node rfl (free _ rfl) every_nil))
    (keeps_next.bind fun part every => by
      cases part with
      | unit unit => exact .pure every
      | _ => exact keeps_unitOf free (every_cons.mpr ⟨every, every_nil⟩))

theorem keeps_compilationUnit : Keeps Holds compilationUnit :=
  keeps_items.bind fun _ every => keeps_unitOf free every

theorem keeps_packageDeclaration : Keeps Holds packageDeclaration :=
  keeps_annotations.bind fun _ every => (keeps_expect _).bind fun _ _ => keeps_name.bind fun _ _ =>
    .pure (every_node rfl (free _ rfl) (every_row.mpr (by simpa using every)))

theorem keeps_importDeclaration : Keeps Holds importDeclaration :=
  (keeps_expect _).bind fun _ _ => (keeps_eat _).bind fun _ _ => keeps_name.bind fun _ _ =>
    (keeps_anyIs _).bind fun _ _ => .pure (every_node rfl (free _ rfl) every_nil)

end

/-! ### Types and their bodies -/

theorem keeps_superclass : Keeps Holds superclass :=
  (keeps_expect _).bind fun _ _ => keeps_type.bind fun _ every => .pure every

theorem keeps_interfaces : Keeps Holds interfaces :=
  keeps_token.bind fun _ _ => keeps_types.bind fun _ every => .pure every

theorem keeps_takeSuperclass : Keeps Holds takeSuperclass :=
  keeps_take fun {node _} same every => by cases node <;> cases same; exact every

theorem keeps_takeInterfaces : Keeps Holds takeInterfaces :=
  (keeps_take fun {node _} same every => by cases node <;> cases same; exact every).bind
    fun _ every => .pure (every_getD every)

theorem keeps_takeExceptions : Keeps Holds takeExceptions :=
  (keeps_take fun {node _} same every => by cases node <;> cases same; exact every).bind
    fun _ every => .pure (every_getD every)

theorem passes_classBody : Passes Holds classBody? := fun {node _} same every => by
  cases node <;> cases same
  exact every

section

include free

theorem keeps_classDeclaration : Keeps Holds classDeclaration := by
  refine (keeps_modifiers free).bind fun modifiers first => (keeps_expect _).bind fun _ _ =>
    keeps_identifier.bind fun name _ => keeps_typeParameters.bind fun typeParameters second =>
      keeps_takeSuperclass.bind fun superclass third => keeps_takeInterfaces.bind
        fun interfaces fourth => (keeps_nextAs _ passes_classBody).bind fun body last =>
          .pure (every_node rfl (free _ rfl) ?_)
  dsimp only [Tree.children]
  simp [first, second, third, fourth, last]

theorem keeps_interfaceDeclaration : Keeps Holds interfaceDeclaration := by
  refine (keeps_modifiers free).bind fun modifiers first => (keeps_expect _).bind fun _ _ =>
    keeps_identifier.bind fun name _ => keeps_typeParameters.bind fun typeParameters second =>
      keeps_takeInterfaces.bind fun interfaces third => (keeps_nextAs _ passes_classBody).bind
        fun body last => .pure (every_node rfl (free _ rfl) ?_)
  dsimp only [Tree.children]
  simp [first, second, third, last]

theorem passes_member : Passes Holds Node.member? := by
  intro node value same every
  cases node with
  | member part =>
    cases same
    exact every
  | typeDeclaration part | block part =>
    cases same
    exact every_tree (free _ rfl) (every_lone every)
  | _ => cases same

theorem keeps_membersOf {nodes : List Node} (every : Every Holds nodes) :
    Keeps Holds (membersOf nodes) := by
  refine (keeps_allAs _ (fun {node _} same every => ?_) every).bind fun members each => .pure ?_
  · cases node with
    | empty =>
      cases same
      exact every_none
    | _ =>
      obtain ⟨member, chosen, rfl⟩ := Option.map_eq_some_iff.mp same
      exact every_some.mpr (passes_member free chosen every)
  · refine every_list.mpr fun member among => ?_
    obtain ⟨entry, inside, rfl⟩ := List.mem_filterMap.mp among
    exact every_some.mp (every_list.mp each _ inside)

theorem keeps_classBody : Keeps Holds classBody :=
  (keeps_expect _).bind fun _ _ => keeps_items.bind fun _ every =>
    (keeps_membersOf free every).bind fun _ each =>
      .pure (every_node rfl (free _ rfl) (every_row.mpr (by simpa using each)))

theorem keeps_staticInitializer : Keeps Holds staticInitializer :=
  (keeps_expect _).bind fun _ _ => keeps_block.bind fun _ every =>
    .pure (every_node rfl (free _ rfl) (every_lone every))

end

/-! ### Members -/

theorem passes_declarator : Passes Holds declarator? := fun {node _} same every => by
  cases node <;> cases same
  exact every

include free in
theorem parts_varDeclaration : Yields (Every Holds) (fun declared =>
    ∃ modifiers type declarators, declared = .varDeclaration modifiers type declarators ∧
      Every Holds (Tree.varDeclaration modifiers type declarators).children) varDeclaration := by
  refine (keeps_modifiers free).bind fun modifiers first => keeps_type.bind fun type second =>
    keeps_next.bind fun node every =>
      (keeps_allAs _ passes_declarator (every_items every)).bind fun declarators last =>
        .pure ⟨_, _, _, rfl, ?_⟩
  dsimp only [Tree.children]
  simp [first, second, last]

include free in
theorem keeps_fieldDeclaration {Given : Node → Prop}
    (declares : Yields Given (Every Holds) varDeclaration) :
    Yields Given (Every Holds) fieldDeclaration :=
  declares.bind fun _ every => .pure (every_node rfl (free _ rfl) (every_lone every))

section

include free

theorem keeps_variableDeclarator : Keeps Holds variableDeclarator :=
  (keeps_nextAs _ passes_declarator).bind fun declarator _ => by
    cases declarator with
    | declarator name dims initial =>
      exact (keeps_expect _).bind fun _ _ => (keeps_expr free).bind fun _ every =>
        .pure (every_node rfl (free _ rfl) (every_lone every))

theorem keeps_variableDeclaratorId : Keeps Holds variableDeclaratorId :=
  keeps_identifier.bind fun _ _ => keeps_dims.bind fun _ _ =>
    .pure (every_node rfl (free _ rfl) every_nil)

omit free in
theorem passes_parameter : Passes Holds parameter? := fun {node _} same every => by
  cases node <;> cases same
  exact every

omit free in
theorem keeps_takeParameters : Keeps Holds takeParameters := by
  refine (keeps_take fun {node _} same every => ?_).bind fun nodes every =>
    keeps_allAs _ passes_parameter (every_getD every)
  cases node with
  | parameter part =>
    cases same
    exact every_cons.mpr ⟨every, every_nil⟩
  | list rule items =>
    cases same
    exact every_listNode.mp every
  | _ => cases same

omit free in
theorem passes_result : Passes Holds result? := by
  intro node value same every
  cases node with
  | type part =>
    cases same
    exact every_some.mpr every
  | token part =>
    change (if part.kind = .voidWord then some none else none) = some value at same
    split at same <;> cases same
    exact every_none
  | _ => cases same

omit free in
theorem passes_methodBody : Passes Holds methodBody? := by
  intro node value same every
  cases node with
  | block part =>
    cases same
    exact every_some.mpr every
  | empty =>
    cases same
    exact every_none
  | _ => cases same

theorem spends_methodDeclaration {budget : Nat} (merges : Merges Holds budget) :
    Spends pairsIn (Every Holds) budget (fun node _ => Every Holds node) methodDeclaration := by
  have result : Spends pairsIn (Every Holds) budget (fun result rest =>
      Every Holds result ∧ result.elim 0 pairs + rest ≤ budget) (nextAs "result type" result?) := by
    refine .nextAs fun {node _} same every => ⟨passes_result same every, ?_⟩
    cases node with
    | type part =>
      cases same
      exact Nat.le_refl _
    | token part =>
      change (if part.kind = .voidWord then some none else none) = some _ at same
      split at same <;> cases same
      exact Nat.le_refl _
    | _ => cases same
  refine .skip (keeps_modifiers free) .repetition fun modifiers first =>
    .skip keeps_typeParameters (.bind .take? fun _ => .pure) fun typeParameters second =>
      .bind result fun result rest ⟨third, more⟩ => .skip keeps_identifier .nextAs fun name _ =>
        .skip (keeps_expect _) .nextAs fun _ _ =>
          .skip keeps_takeParameters (.bind .take? fun _ => .allAs _) fun parameters fourth =>
            .skip (keeps_expect _) .nextAs fun _ _ => .bind spends_dims fun dims _ within => ?_
  refine .skip keeps_takeExceptions (.bind .take? fun _ => .pure) fun exceptions fifth =>
    .skip (keeps_nextAs _ passes_methodBody) .nextAs fun body last =>
      .pure (every_node rfl (free _ rfl) ?_)
  have merged : Every Holds (result.map (·.withDims dims)) := merges.map third (by omega)
  dsimp only [Tree.children]
  simp [first, second, merged, fourth, fifth, last]

theorem spends_formalParameter {budget : Nat} (merges : Merges Holds budget) :
    Spends pairsIn (Every Holds) budget (fun node _ => Every Holds node) formalParameter := by
  have parameter {type : TypeExpr} {modifiers : List (Tree .modifier)} (name : Identifier)
      (isVariadic : Bool) (first : Every Holds modifiers) (second : Every Holds type) :
      Every Holds (Node.parameter (.parameter (.ofList modifiers) type name isVariadic)) := by
    refine every_node rfl (free _ rfl) ?_
    dsimp only [Tree.children]
    simp [first, second]
  refine .skip (keeps_modifiers free) .repetition fun modifiers first =>
    .bind spends_type fun type rest ⟨second, more⟩ => .skip (keeps_eat _) .take? fun ellipsis _ =>
      .ite (.skip keeps_identifier .nextAs fun name _ => .pure (parameter name true first second)) ?_
  have declares : Spends pairsIn (Every Holds) rest (fun declarator left =>
      Every Holds declarator ∧ pairsIn (.declarator declarator) + left ≤ rest)
      (nextAs "parameter name" declarator?) :=
    .nextAs fun {node _} same every => ⟨passes_declarator same every, by
      cases node <;> cases same
      exact Nat.le_refl _⟩
  refine declares.bind fun declarator _ ⟨_, within⟩ => ?_
  cases declarator with
  | declarator name dims initial =>
    exact .pure (parameter name false first (merges type dims second (by
      simp only [pairsIn] at within
      omega)))

omit free in
theorem keeps_exceptions : Keeps Holds exceptions :=
  (keeps_expect _).bind fun _ _ => keeps_types.bind fun _ every => .pure every

theorem keeps_constructorDeclaration : Keeps Holds constructorDeclaration := by
  refine (keeps_modifiers free).bind fun modifiers first =>
    keeps_typeParameters.bind fun typeParameters second => keeps_identifier.bind fun name _ =>
      (keeps_expect _).bind fun _ _ => keeps_takeParameters.bind fun parameters third =>
        (keeps_expect _).bind fun _ _ => keeps_takeExceptions.bind fun exceptions fourth =>
          keeps_block.bind fun body last => .pure (every_node rfl (free _ rfl) ?_)
  dsimp only [Tree.children]
  simp [first, second, third, fourth, last]

theorem keeps_constructorCall : Keeps Holds constructorCall := by
  refine (keeps_takeExpr free).bind fun outer first => ?_
  have call : Keeps Holds (do
      let typeArguments ← OperandM.typeArguments
      let token ← token
      let target := if token.kind = .thisWord then ConstructorTarget.this else .super
      let arguments ← arguments
      return Node.stmt (.constructorCall target outer typeArguments arguments token.position)) := by
    refine keeps_typeArguments.bind fun typeArguments second => keeps_token.bind fun token _ =>
      keeps_arguments.bind fun arguments last => .pure (every_node rfl (free _ rfl) ?_)
    dsimp only [Tree.children]
    simp [first, second, last]
  cases outer with
  | none => exact call
  | some outer => exact (keeps_expect _).bind fun _ _ => call

/-! ### Enumerations -/

omit free in
theorem passes_enumBody : Passes Holds enumBody? := by
  intro node value same every
  cases node with
  | enumBody constants body =>
    cases same
    exact every
  | _ => cases same

theorem keeps_enumDeclaration : Keeps Holds enumDeclaration := by
  refine (keeps_modifiers free).bind fun modifiers first => (keeps_expect _).bind fun _ _ =>
    keeps_identifier.bind fun name _ => keeps_takeInterfaces.bind fun interfaces second =>
      (keeps_nextAs _ passes_enumBody).bind fun (constants, body) last =>
        .pure (every_node rfl (free _ rfl) ?_)
  obtain ⟨third, last⟩ := every_pair.mp last
  dsimp only [Tree.children]
  simp [first, second, third, last]

omit free in
theorem passes_enumConstant : Passes Holds enumConstant? := fun {node _} same every => by
  cases node <;> cases same
  exact every

theorem keeps_enumBody : Keeps Holds enumBody := by
  refine (keeps_expect _).bind fun _ _ => keeps_items.bind fun nodes every =>
    (keeps_allAs _ (passes_guard _) every).bind fun parts each => .pure (every_pair.mpr ⟨?_, ?_⟩)
  · exact every_filterMap passes_enumConstant each
  · have last := every_getLast? (every_filterMap passes_classBody each)
    cases found : (parts.filterMap classBody?).getLast? with
    | none => exact every_tree (free _ rfl) every_nil
    | some body =>
      rw [found] at last
      exact every_some.mp last

theorem keeps_enumConstant : Keeps Holds enumConstant := by
  refine keeps_annotations.bind fun annotations first => keeps_identifier.bind fun name _ =>
    (keeps_take passes_arguments).bind fun arguments second =>
      (keeps_take passes_classBody).bind fun body last => ?_
  cases arguments with
  | none =>
    refine .pure (every_node rfl (free _ rfl) ?_)
    dsimp only [Tree.children]
    simp [first, last]
  | some arguments =>
    have second := every_some.mp second
    refine .pure (every_node rfl (free _ rfl) ?_)
    dsimp only [Tree.children]
    simp [first, second, last]

theorem keeps_enumBodyDeclarations : Keeps Holds enumBodyDeclarations :=
  (keeps_expect _).bind fun _ _ => keeps_items.bind fun _ every =>
    (keeps_membersOf free every).bind fun _ each =>
      .pure (every_node rfl (free _ rfl) (every_row.mpr (by simpa using each)))

end

end JavaFrontend.Java.Reduction
