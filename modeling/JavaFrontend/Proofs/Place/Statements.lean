import JavaFrontend.Java.Reduction.Statements
import JavaFrontend.Proofs.Place.Declarations

/-!
The reductions for blocks and statements are blind to places.
-/

namespace JavaFrontend.Java.Reduction

open OperandM

theorem selects_stmt : Selects Node.stmt? := fun node => by cases node <;> rfl

theorem blind_statement : Blind statement := blind_nextAs selects_stmt _

theorem blind_parenthesized : Blind parenthesized :=
  (blind_expect _).bind fun _ => blind_expr.bind fun _ => (blind_expect _).bind fun _ => .pure rfl

theorem alike_exprsOf (node : Node) : Alike (exprsOf node) (exprsOf (unplaced node)) := by
  unfold exprsOf
  rw [items_unplaced]
  exact alike_allAs selects_expr _ _

theorem blind_braces : Blind braces :=
  (blind_expect _).bind fun _ => blind_items.bind fun nodes =>
    (alike_allAs selects_stmt _ nodes).bind fun _ => .pure (by rw [ofList_unplaced]; rfl)

theorem selects_varDeclaration : Selects varDeclaration? := fun node => by cases node <;> rfl

theorem blind_variablesStatement : Blind variablesStatement :=
  (blind_nextAs selects_varDeclaration _).bind fun _ => .pure rfl

theorem blind_localVariables : Blind localVariables := blind_varDeclaration.bind fun _ => .pure rfl

theorem blind_emptyStatement : Blind emptyStatement := blind_token.bind fun _ => .pure rfl

theorem blind_labeledStatement : Blind labeledStatement :=
  blind_identifier.bind fun _ => (blind_expect _).bind fun _ => blind_statement.bind fun _ =>
    .pure rfl

theorem blind_exprStatement : Blind exprStatement := blind_expr.bind fun _ => .pure rfl

theorem blind_ifStatement : Blind ifStatement :=
  (blind_expect _).bind fun _ => blind_parenthesized.bind fun _ => blind_statement.bind fun _ =>
    (blind_eat _).bind fun otherwise => by
      rw [isSome_unplaced]
      exact .ite (blind_statement.bind fun _ => .pure rfl) (.pure rfl)

theorem blind_assertStatement : Blind assertStatement :=
  (blind_expect _).bind fun _ => blind_expr.bind fun _ => (blind_eat _).bind fun colon => by
    rw [isSome_unplaced]
    exact .ite (blind_expr.bind fun _ => .pure rfl) (.pure rfl)

/-! ### Switches -/

theorem blind_switchStatement : Blind switchStatement :=
  (blind_expect _).bind fun _ => blind_parenthesized.bind fun _ =>
    (blind_nextAs (fun node => by cases node <;> rfl) _).bind fun _ =>
      .pure (by rw [ofList_unplaced]; rfl)

theorem selects_switchGroup : Selects switchGroup? := fun node => by cases node <;> rfl

theorem selects_switchLabel : Selects switchLabel? := fun node => by cases node <;> rfl

theorem blind_switchBlock : Blind switchBlock :=
  blind_items.bind fun nodes =>
    (alike_allAs (selects_guard fun node => by cases node <;> rfl) _ nodes).bind fun parts => by
      rw [filterMap_unplaced selects_switchGroup, filterMap_unplaced selects_switchLabel]
      cases parts.filterMap switchLabel? with
      | nil => exact .pure rfl
      | cons label labels =>
        refine .pure ?_
        rw [ofList_unplaced]
        exact congrArg Node.switchBlock (unplaced_append _ _)

theorem blind_switchGroup : Blind switchGroup :=
  blind_items.bind fun parts => by
    rw [filter_unplaced fun node => by cases node <;> rfl, filterMap_unplaced selects_switchLabel]
    exact (alike_allAs selects_stmt _ _).bind fun _ => .pure (by simp only [ofList_unplaced]; rfl)

theorem blind_switchLabel : Blind switchLabel :=
  blind_token.bind fun _ => .ite (.pure rfl) (blind_expr.bind fun _ => .pure rfl)

/-! ### Loops -/

theorem blind_whileStatement : Blind whileStatement :=
  (blind_expect _).bind fun _ => blind_parenthesized.bind fun _ => blind_statement.bind fun _ =>
    .pure rfl

theorem blind_doStatement : Blind doStatement :=
  (blind_expect _).bind fun _ => blind_statement.bind fun _ => (blind_expect _).bind fun _ =>
    (blind_expect _).bind fun _ => blind_expr.bind fun _ => .pure rfl

theorem blind_forStatement : Blind forStatement := by
  refine (blind_expect _).bind fun _ => (blind_expect _).bind fun _ =>
    (blind_nextIs _).bind fun _ => ?_
  extract_lets further
  have same (start : Tree .forStart) : Alike (further start) (further (unplaced start)) := by
    refine (blind_expect _).bind fun _ => blind_takeExpr.bind fun condition =>
      (blind_expect _).bind fun _ => (blind_nextIs _).bind fun _ => ?_
    have last (update : List Expr) : Alike
        (do
          let _ ← expect .rightParen
          return Node.stmt (.forLoop start condition update (← statement)))
        (do
          let _ ← expect .rightParen
          return Node.stmt (.forLoop (unplaced start) (.ofOption (unplaced condition))
            (.ofList (unplaced update)) (← statement))) :=
      (blind_expect _).bind fun _ => blind_statement.bind fun _ =>
        .pure (by simp only [ofList_unplaced, ofOption_unplaced]; rfl)
    exact .ite (.bind (.pure rfl) last)
      (blind_next.bind fun node => (alike_exprsOf node).bind last)
  refine .ite (.bind (.pure rfl) same) (blind_next.bind fun node => ?_)
  rw [selects_varDeclaration]
  cases varDeclaration? node with
  | some declared => exact .bind (.pure rfl) same
  | none =>
    exact (alike_exprsOf node).bind fun _ => .bind (.pure (by rw [ofList_unplaced]; rfl)) same

theorem blind_forEachStatement : Blind forEachStatement :=
  (blind_expect _).bind fun _ => (blind_expect _).bind fun _ => blind_modifiers.bind fun _ =>
    blind_type.bind fun _ => (blind_nextAs selects_declarator _).bind fun _ =>
      (blind_expect _).bind fun _ => blind_expr.bind fun _ => (blind_expect _).bind fun _ =>
        blind_statement.bind fun _ => .pure (by rw [ofList_unplaced]; rfl)

/-! ### Jumps -/

theorem blind_jumpStatement : Blind jumpStatement :=
  blind_token.bind fun _ => blind_takeIdentifier.bind fun _ => .ite (.pure rfl) (.pure rfl)

theorem blind_returnStatement : Blind returnStatement :=
  (blind_expect _).bind fun _ => blind_takeExpr.bind fun _ =>
    .pure (by rw [ofOption_unplaced]; rfl)

theorem blind_throwStatement : Blind throwStatement :=
  (blind_expect _).bind fun _ => blind_expr.bind fun _ => .pure rfl

theorem blind_synchronizedStatement : Blind synchronizedStatement :=
  (blind_expect _).bind fun _ => blind_parenthesized.bind fun _ => blind_block.bind fun _ =>
    .pure rfl

/-! ### Try statements -/

theorem selects_catchClause : Selects catchClause? := fun node => by cases node <;> rfl

theorem selects_finallyBlock : Selects finallyBlock? := fun node => by cases node <;> rfl

theorem blind_tryStatement : Blind tryStatement :=
  (blind_expect _).bind fun _ => (blind_take fun node => by cases node <;> rfl).bind fun resources =>
    blind_block.bind fun _ => blind_items.bind fun nodes =>
      (alike_allAs (selects_guard fun node => by cases node <;> rfl) _ nodes).bind fun parts => by
        refine .pure ?_
        rw [filterMap_unplaced selects_catchClause, filterMap_unplaced selects_finallyBlock,
          getLast?_unplaced, ofOption_unplaced, getD_unplaced, ofList_unplaced, ofList_unplaced]
        rfl

theorem blind_catchClause : Blind catchClause :=
  (blind_expect _).bind fun _ => (blind_expect _).bind fun _ => blind_modifiers.bind fun _ =>
    blind_next.bind fun node => by
      rw [items_unplaced]
      exact (alike_allAs selects_type _ _).bind fun _ => blind_identifier.bind fun _ =>
        (blind_expect _).bind fun _ => blind_block.bind fun _ =>
          .pure (by simp only [ofList_unplaced]; rfl)

theorem blind_finallyBlock : Blind finallyBlock :=
  (blind_expect _).bind fun _ => blind_block.bind fun _ => .pure rfl

theorem blind_resources : Blind resources :=
  blind_items.bind fun nodes =>
    (alike_allAs (fun node => by cases node <;> rfl) _ nodes).bind fun _ => .pure rfl

theorem blind_resource : Blind resource :=
  blind_modifiers.bind fun _ => blind_type.bind fun _ => blind_identifier.bind fun _ =>
    (blind_expect _).bind fun _ => blind_expr.bind fun _ => .pure (by rw [ofList_unplaced]; rfl)

end JavaFrontend.Java.Reduction
