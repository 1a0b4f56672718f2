import JavaFrontend.Java.Reduction.Statements
import JavaFrontend.Proofs.Trees.Declarations

/-!
The reductions for blocks and statements keep what holds of all trees.
-/

namespace JavaFrontend.Java.Reduction

open OperandM

variable {Holds : Subtree → Prop} (free : ∀ subtree : Subtree, subtree.isFree → Holds subtree)

theorem passes_varDeclaration : Passes Holds varDeclaration? := fun {node _} same every => by
  cases node <;> cases same
  exact every

section

include free

theorem passes_stmt : Passes Holds Node.stmt? := by
  intro node value same every
  cases node with
  | stmt part =>
    cases same
    exact every
  | block part | varDeclaration part | typeDeclaration part =>
    cases same
    exact every_tree (free _ rfl) (every_lone every)
  | empty =>
    cases same
    exact every_tree (free _ rfl) every_nil
  | _ => cases same

theorem keeps_statement : Keeps Holds statement := keeps_nextAs _ (passes_stmt free)

theorem keeps_parenthesized : Keeps Holds parenthesized :=
  (keeps_expect _).bind fun _ _ => (keeps_expr free).bind fun _ every =>
    (keeps_expect _).bind fun _ _ => .pure every

theorem keeps_exprsOf {node : Node} (every : Every Holds node) : Keeps Holds (exprsOf node) :=
  keeps_allAs _ (passes_expr free) (every_items every)

theorem keeps_braces : Keeps Holds braces :=
  (keeps_expect _).bind fun _ _ => keeps_items.bind fun _ every =>
    (keeps_allAs _ (passes_stmt free) every).bind fun _ each =>
      .pure (every_node rfl (free _ rfl) (every_row.mpr (by simpa using each)))

theorem keeps_variablesStatement : Keeps Holds variablesStatement :=
  (keeps_nextAs _ passes_varDeclaration).bind fun _ every =>
    .pure (every_node rfl (free _ rfl) (every_lone every))

omit free in
theorem keeps_localVariables {Given : Node → Prop}
    (declares : Yields Given (Every Holds) varDeclaration) :
    Yields Given (Every Holds) localVariables :=
  declares.bind fun _ every => .pure every

theorem keeps_emptyStatement : Keeps Holds emptyStatement :=
  keeps_token.bind fun _ _ => .pure (every_node rfl (free _ rfl) every_nil)

theorem keeps_labeledStatement : Keeps Holds labeledStatement :=
  keeps_identifier.bind fun _ _ => (keeps_expect _).bind fun _ _ =>
    (keeps_statement free).bind fun _ every =>
      .pure (every_node rfl (free _ rfl) (every_lone every))

theorem keeps_exprStatement : Keeps Holds exprStatement :=
  (keeps_expr free).bind fun _ every => .pure (every_node rfl (free _ rfl) (every_lone every))

/-- The statement is a condition, with an `else` or without one. -/
inductive IsCondition : Stmt → Prop where
  | ifThen (condition : Expr) (body : Stmt) : IsCondition (.ifThen condition body)
  | ifThenElse (condition : Expr) (body otherwise : Stmt) :
    IsCondition (.ifThenElse condition body otherwise)

theorem parts_ifStatement : Yields (Every Holds) (fun node => ∃ tree : Stmt,
    node = .stmt tree ∧ IsCondition tree ∧ Every Holds tree.children) ifStatement :=
  (keeps_expect _).bind fun _ _ => (keeps_parenthesized free).bind fun _ first =>
    (keeps_statement free).bind fun _ second => (keeps_eat _).bind fun _ _ =>
      .ite ((keeps_statement free).bind fun _ third => .pure ⟨_, rfl, .ifThenElse _ _ _,
          every_cons.mpr ⟨first, every_both second third⟩⟩)
        (.pure ⟨_, rfl, .ifThen _ _, every_both first second⟩)

theorem keeps_assertStatement : Keeps Holds assertStatement :=
  (keeps_expect _).bind fun _ _ => (keeps_expr free).bind fun _ first =>
    (keeps_eat _).bind fun _ _ => .ite
      ((keeps_expr free).bind fun _ second =>
        .pure (every_node rfl (free _ rfl) (every_both first second)))
      (.pure (every_node rfl (free _ rfl) (every_lone first)))

/-! ### Switches -/

theorem parts_switchStatement : Yields (Every Holds) (fun node => ∃ selector groups,
    node = .stmt (.switchStmt selector groups) ∧
      Every Holds (Tree.switchStmt selector groups).children) switchStatement := by
  refine (keeps_expect _).bind fun _ _ => (keeps_parenthesized free).bind fun selector first =>
    (keeps_nextAs _ fun {node _} same every => ?_).bind fun groups last =>
      .pure ⟨_, _, rfl, ?_⟩
  · cases node <;> cases same
    exact every
  · dsimp only [Tree.children]
    simp [first, last]

omit free in
theorem passes_switchGroup : Passes Holds switchGroup? := fun {node _} same every => by
  cases node <;> cases same
  exact every

omit free in
theorem passes_switchLabel : Passes Holds switchLabel? := fun {node _} same every => by
  cases node <;> cases same
  exact every

theorem keeps_switchBlock : Keeps Holds switchBlock := by
  refine keeps_items.bind fun nodes every =>
    (keeps_allAs _ (passes_guard _) every).bind fun parts each => ?_
  have groups := every_filterMap passes_switchGroup each
  have labels := every_filterMap passes_switchLabel each
  dsimp only
  generalize parts.filterMap switchLabel? = found at labels
  cases found with
  | nil => exact .pure groups
  | cons label more =>
    have last : Every Holds (Tree.switchGroup (.ofList (label :: more)) .nil) :=
      every_tree (free _ rfl) (every_append.mpr ⟨every_row.mpr (by simpa using labels), every_nil⟩)
    refine .pure (?_ : Every Holds (parts.filterMap switchGroup? ++ [_]))
    exact every_append.mpr ⟨groups, every_cons.mpr ⟨last, every_nil⟩⟩

theorem parts_switchGroup : Yields (Every Holds) (fun node => ∃ labels statements,
    node = .switchGroup (.switchGroup labels statements) ∧
      Every Holds (Tree.switchGroup labels statements).children) switchGroup := by
  refine keeps_items.bind fun _ every =>
    (keeps_allAs _ (passes_stmt free) (every_filter every)).bind fun _ last =>
      .pure ⟨_, _, rfl, ?_⟩
  dsimp only [Tree.children]
  simp [every_filterMap passes_switchLabel every, last]

theorem keeps_switchLabel : Keeps Holds switchLabel :=
  keeps_token.bind fun _ _ => .ite (.pure (every_node rfl (free _ rfl) every_nil))
    ((keeps_expr free).bind fun _ every =>
      .pure (every_node rfl (free _ rfl) (every_lone every)))

/-! ### Loops -/

theorem keeps_whileStatement : Keeps Holds whileStatement :=
  (keeps_expect _).bind fun _ _ => (keeps_parenthesized free).bind fun _ first =>
    (keeps_statement free).bind fun _ second =>
      .pure (every_node rfl (free _ rfl) (every_both first second))

theorem keeps_doStatement : Keeps Holds doStatement :=
  (keeps_expect _).bind fun _ _ => (keeps_statement free).bind fun _ first =>
    (keeps_expect _).bind fun _ _ => (keeps_expect _).bind fun _ _ =>
      (keeps_expr free).bind fun _ second =>
        .pure (every_node rfl (free _ rfl) (every_both first second))

theorem keeps_forStatement : Keeps Holds forStatement := by
  refine (keeps_expect _).bind fun _ _ => (keeps_expect _).bind fun _ _ =>
    (keeps_nextIs _).bind fun _ _ => ?_
  extract_lets further
  have rest (start : Tree .forStart) (first : Every Holds start) : Keeps Holds (further start) := by
    refine (keeps_expect _).bind fun _ _ => (keeps_takeExpr free).bind fun condition second =>
      (keeps_expect _).bind fun _ _ => (keeps_nextIs _).bind fun _ _ => ?_
    have last (update : List Expr) (third : Every Holds update) : Keeps Holds (do
        let _ ← expect .rightParen
        return Node.stmt (.forLoop start condition update (← statement))) := by
      refine (keeps_expect _).bind fun _ _ => (keeps_statement free).bind fun body fourth =>
        .pure (every_node rfl (free _ rfl) ?_)
      dsimp only [Tree.children]
      simp [first, second, third, fourth]
    exact .ite (last [] every_nil)
      (keeps_next.bind fun node every => (keeps_exprsOf free every).bind last)
  refine .ite (rest _ (every_tree (free _ rfl) every_nil)) (keeps_next.bind fun node every => ?_)
  cases declares : varDeclaration? node with
  | some declared =>
    exact rest _ (every_tree (free _ rfl) (every_lone (passes_varDeclaration declares every)))
  | none =>
    refine (keeps_exprsOf free every).bind fun values each => rest _ (every_tree (free _ rfl) ?_)
    exact every_row.mpr (by simpa using each)

theorem keeps_forEachStatement : Keeps Holds forEachStatement := by
  refine (keeps_expect _).bind fun _ _ => (keeps_expect _).bind fun _ _ =>
    (keeps_modifiers free).bind fun modifiers first => keeps_type.bind fun type second =>
      (keeps_nextAs _ passes_declarator).bind fun declarator third =>
        (keeps_expect _).bind fun _ _ => (keeps_expr free).bind fun iterable fourth =>
          (keeps_expect _).bind fun _ _ => (keeps_statement free).bind fun body last => ?_
  have declared : Every Holds (Tree.varDeclaration (.ofList modifiers) type
      (.ofList [declarator])) := by
    refine every_tree (free _ rfl) ?_
    dsimp only [Tree.children]
    simp [first, second, third]
  refine .pure (every_node rfl (free _ rfl) ?_)
  exact every_cons.mpr ⟨declared, every_both fourth last⟩

/-! ### Jumps -/

theorem keeps_jumpStatement : Keeps Holds jumpStatement :=
  keeps_token.bind fun _ _ => keeps_takeIdentifier.bind fun _ _ =>
    .ite (.pure (every_node rfl (free _ rfl) every_nil))
      (.pure (every_node rfl (free _ rfl) every_nil))

theorem keeps_returnStatement : Keeps Holds returnStatement :=
  (keeps_expect _).bind fun _ _ => (keeps_takeExpr free).bind fun _ every =>
    .pure (every_node rfl (free _ rfl) (every_optional.mpr (by simpa using every)))

theorem keeps_throwStatement : Keeps Holds throwStatement :=
  (keeps_expect _).bind fun _ _ => (keeps_expr free).bind fun _ every =>
    .pure (every_node rfl (free _ rfl) (every_lone every))

theorem keeps_synchronizedStatement : Keeps Holds synchronizedStatement :=
  (keeps_expect _).bind fun _ _ => (keeps_parenthesized free).bind fun _ first =>
    keeps_block.bind fun _ second => .pure (every_node rfl (free _ rfl) (every_both first second))

end

/-! ### Try statements -/

theorem passes_catchClause : Passes Holds catchClause? := fun {node _} same every => by
  cases node <;> cases same
  exact every

theorem passes_finallyBlock : Passes Holds finallyBlock? := fun {node _} same every => by
  cases node <;> cases same
  exact every

theorem parts_tryStatement : Yields (Every Holds) (fun node => ∃ resources body catches atLast,
    node = .stmt (.tryStmt resources body catches atLast) ∧
      Every Holds (Tree.tryStmt resources body catches atLast).children) tryStatement := by
  refine (keeps_expect _).bind fun _ _ =>
    (keeps_take fun {node _} same every => by cases node <;> cases same; exact every).bind
      fun resources first => keeps_block.bind fun body second => keeps_items.bind fun nodes every =>
        (keeps_allAs _ (passes_guard _) every).bind fun parts each =>
          .pure ⟨_, _, _, _, rfl, ?_⟩
  dsimp only [Tree.children]
  simp only [every_append, every_optional, Optional.toOption_ofOption, every_row,
    Row.toList_ofList]
  exact ⟨⟨⟨every_getD first, every_lone second⟩, every_filterMap passes_catchClause each⟩,
    every_getLast? (every_filterMap passes_finallyBlock each)⟩

include free in
theorem parts_catchClause : Yields (Every Holds) (fun node => ∃ modifiers types name body,
    node = .catchClause (.catchClause modifiers types name body) ∧
      Every Holds (Tree.catchClause modifiers types name body).children) catchClause := by
  refine (keeps_expect _).bind fun _ _ => (keeps_expect _).bind fun _ _ =>
    (keeps_modifiers free).bind fun modifiers first => keeps_next.bind fun node every =>
      (keeps_allAs _ passes_type (every_items every)).bind fun types second =>
        keeps_identifier.bind fun _ _ => (keeps_expect _).bind fun _ _ =>
          keeps_block.bind fun body last => .pure ⟨_, _, _, _, rfl, ?_⟩
  dsimp only [Tree.children]
  simp [first, second, last]

theorem keeps_finallyBlock : Keeps Holds finallyBlock :=
  (keeps_expect _).bind fun _ _ => keeps_block.bind fun _ every => .pure every

theorem keeps_resources : Keeps Holds resources :=
  keeps_items.bind fun _ every =>
    (keeps_allAs _ (fun {node _} same every => by cases node <;> cases same; exact every)
      every).bind fun _ each => .pure each

include free in
theorem keeps_resource : Keeps Holds resource := by
  refine (keeps_modifiers free).bind fun modifiers first => keeps_type.bind fun type second =>
    keeps_identifier.bind fun _ _ => (keeps_expect _).bind fun _ _ =>
      (keeps_expr free).bind fun initial last => .pure (every_node rfl (free _ rfl) ?_)
  dsimp only [Tree.children]
  simp [first, second, last]

end JavaFrontend.Java.Reduction
