import JavaFrontend.Java.Reduction.Statements
import JavaFrontend.Proofs.Java.Declarations

/-!
What the reductions for blocks and statements make of their operands.
-/

namespace JavaFrontend.Java.Reduction

open OperandM Piece NodeSort

/-- What may stand in a block. -/
def statements : List NodeSort := [.stmt, .block, .typeDeclaration]

/-- What the header of a loop may begin with: variables, an expression, or several expressions in
a list. -/
def loopStart : Shape := ⟨.varDeclaration :: expressions, expressions⟩

/-- Expressions, one by itself or several in a list. -/
abbrev exprList : Piece := .part (.oneOrList expressions)

/-! ### What is selected -/

theorem chooses_stmt : Chooses (.varDeclaration :: .empty :: statements) Node.stmt? where
  single holds := by cases holds <;> simp [Node.stmt?, statements]
  list _ _ := rfl

theorem chooses_varDeclaration : Chooses [.varDeclaration] varDeclaration? where
  single holds := by cases holds <;> simp [varDeclaration?]
  list _ _ := rfl

theorem chooses_switchGroup : Chooses [.switchGroup] switchGroup? where
  single holds := by cases holds <;> simp [switchGroup?]
  list _ _ := rfl

theorem chooses_switchLabel : Chooses [.switchLabel] switchLabel? where
  single holds := by cases holds <;> simp [switchLabel?]
  list _ _ := rfl

theorem chooses_catchClause : Chooses [.catchClause] catchClause? where
  single holds := by cases holds <;> simp [catchClause?]
  list _ _ := rfl

theorem chooses_finallyBlock : Chooses [.finallyBlock] finallyBlock? where
  single holds := by cases holds <;> simp [finallyBlock?]
  list _ _ := rfl

end JavaFrontend.Java.Reduction

namespace JavaFrontend.OperandM.Makes

open Java Java.Reduction Piece NodeSort

variable {row : List Piece} {before : List Word} {result : Shape}

/-! ### Rules for the parts of statements -/

theorem statement {go : Stmt → OperandM Node}
    (further : ∀ part, Makes row (before ++ part.words) (go part) result) :
    Makes (one statements :: row) before (Reduction.statement >>= go) result :=
  nextAs chooses_stmt rfl further

theorem parenthesized {go : Expr → OperandM Node}
    (further : ∀ part, Makes row (before ++ part.words) (go part) result) :
    Makes (Piece.token .leftParen :: one expressions :: Piece.token .rightParen :: row) before
      (Reduction.parenthesized >>= go) result := by
  unfold Reduction.parenthesized
  simp only [bind_assoc, pure_bind]
  exact .expect fun _ _ => .expr fun part => .expect fun _ _ => further part

theorem exprsOf {shape : Shape} {go : List Expr → OperandM Node}
    (within : (shape.sorts ++ shape.items).all (· ∈ expressions))
    (further : ∀ parts, Makes row (before ++ words parts) (go parts) result) :
    Makes (.part shape :: row) before
      (OperandM.next >>= fun node => Reduction.exprsOf node >>= go) result := by
  refine nextItems chooses_expr ?_ further
  simp only [List.all_eq_true, decide_eq_true_eq] at within ⊢
  exact fun sort among => List.mem_cons_of_mem _ (within sort among)

/-- What stands before the first semicolon in the header of a loop. -/
theorem loopStart {go : Tree .forStart → OperandM Node}
    (further : ∀ start : Tree .forStart,
      Makes (Piece.token .semicolon :: row) (before ++ start.words) (go start) result) :
    Makes (.maybe [.part Reduction.loopStart] :: Piece.token .semicolon :: row) before (do
      let start : Tree .forStart ←
        if ← OperandM.nextIs .semicolon then pure .noStart
        else do
          let node ← OperandM.next
          match varDeclaration? node with
          | some declared => pure (.variablesStart declared)
          | none => pure (.exprsStart (← Reduction.exprsOf node))
      go start) result := by
  refine maybe (.nextIs ?_) (.nextIs_false rfl ?_)
  · simpa using further .noStart
  · refine .next fun node holds => ?_
    obtain ⟨declared, chosen, same⟩ | ⟨none, holds⟩ :
        (∃ declared, varDeclaration? node = some declared ∧ words declared = node.words) ∨
        varDeclaration? node = none ∧ (Shape.oneOrList expressions).Holds node := by
      cases holds with
      | single among holds =>
        rcases List.mem_cons.mp among with rfl | among
        · exact .inl (chooses_varDeclaration.chosen holds (List.mem_singleton_self _))
        · refine .inr ⟨chooses_varDeclaration.other holds fun same => ?_, .single among holds⟩
          exact absurd (List.mem_singleton.mp same ▸ among) (by decide)
      | list rule some all => exact .inr ⟨rfl, .list rule some all⟩
    · simp only [chosen, pure_bind]
      simpa [← same] using further (.variablesStart declared)
    · simp only [none, pure_bind]
      refine nodeItems chooses_expr (fun item member => ?_) fun values => by
        simpa using further (.exprsStart values)
      obtain ⟨sort, among, holds⟩ := holds.items item member
      exact ⟨sort, List.mem_cons_of_mem _ (by simpa [Shape.oneOrList] using among), holds⟩

/-- What stands behind the second semicolon. -/
theorem loopUpdate {go : List Expr → OperandM Node}
    (further : ∀ update,
      Makes (Piece.token .rightParen :: row) (before ++ words update) (go update) result) :
    Makes (.maybe [exprList] :: Piece.token .rightParen :: row) before (do
      let update ← if ← OperandM.nextIs .rightParen then pure []
        else Reduction.exprsOf (← OperandM.next)
      go update) result :=
  maybe (.nextIs (by simpa using further [])) (.nextIs_false rfl (.exprsOf rfl further))

end JavaFrontend.OperandM.Makes

namespace JavaFrontend.Java.Reduction

open OperandM Piece NodeSort

variable {row : List Piece} {before : List Word} {result : Shape} {kinds : List Kind}

/-! ### Blocks and simple statements -/

theorem makes_braces
    (within : (itemSortsOf row).all (· ∈ NodeSort.varDeclaration :: .empty :: statements)) :
    Makes (token .leftBrace :: row) [] braces (.of [.block]) :=
  .expect fun _ _ => .allItems chooses_stmt within fun statements =>
    .done rfl (.block _) (by simp)

theorem makes_variablesStatement :
    Makes [one [.varDeclaration], token .semicolon] [] variablesStatement (.of [.stmt]) :=
  .nextAs chooses_varDeclaration rfl fun declared => .done rfl (.stmt _) (by simp)

theorem makes_localVariables :
    Makes [many modifiers, one NodeSort.types, declaratorList] [] localVariables
      (.of [.varDeclaration]) :=
  .varDeclaration fun declared => .done rfl (.varDeclaration _) (by simp)

theorem makes_emptyStatement : Makes [tokens kinds] [] emptyStatement (.of [.stmt]) :=
  .token fun _ _ => .done rfl (.stmt _) (by simp)

theorem makes_labeledStatement :
    Makes [one [.identifier], token .colon, one statements] [] labeledStatement (.of [.stmt]) :=
  .identifier fun label => .expect fun _ _ => .statement fun body => .done rfl (.stmt _) (by simp)

theorem makes_exprStatement :
    Makes [one expressions, token .semicolon] [] exprStatement (.of [.stmt]) :=
  .expr fun value => .done rfl (.stmt _) (by simp)

theorem makes_ifThen :
    Makes [token .ifWord, token .leftParen, one expressions, token .rightParen, one statements] []
      ifStatement (.of [.stmt]) :=
  .expect fun _ _ => .parenthesized fun condition => .statement fun body =>
    .eat_none rfl <| .done rfl (.stmt _) (by simp)

theorem makes_ifThenElse :
    Makes [token .ifWord, token .leftParen, one expressions, token .rightParen, one statements,
        token .elseWord, one statements] []
      ifStatement (.of [.stmt]) :=
  .expect fun _ _ => .parenthesized fun condition => .statement fun body =>
    .eat fun _ _ => .statement fun otherwise => .done rfl (.stmt _) (by simp)

theorem makes_assertion :
    Makes [token .assertWord, one expressions, token .semicolon] [] assertStatement
      (.of [.stmt]) :=
  .expect fun _ _ => .expr fun condition => .eat_none rfl <| .done rfl (.stmt _) (by simp)

theorem makes_assertionWithMessage :
    Makes [token .assertWord, one expressions, token .colon, one expressions, token .semicolon] []
      assertStatement (.of [.stmt]) :=
  .expect fun _ _ => .expr fun condition => .eat fun _ _ => .expr fun message =>
    .done rfl (.stmt _) (by simp)

/-! ### Switches -/

theorem makes_switchStatement :
    Makes [token .switchWord, token .leftParen, one expressions, token .rightParen,
        one [.switchBlock]] []
      switchStatement (.of [.stmt]) := by
  refine .expect fun _ _ => .parenthesized fun selector =>
    .nextAs (?_ : Chooses [.switchBlock] _) rfl fun groups => .done rfl (.stmt _) (by simp)
  exact ⟨fun holds => by cases holds <;> simp, fun _ _ => rfl⟩

theorem isSwitchPart_of {sort : NodeSort} {node : Node} (holds : sort.Holds node)
    (among : sort ∈ [NodeSort.switchGroup, .switchLabel]) : isSwitchPart node := by
  cases holds <;> first | rfl | simp at among

theorem makes_switchBlock :
    Makes [token .leftBrace, many [.switchGroup], many [.switchLabel], token .rightBrace] []
      switchBlock (.of [.switchBlock]) := by
  refine .acceptedItems isSwitchPart_of rfl fun nodes matched => ?_
  obtain ⟨-, -, -, split⟩ :=
    chooses_switchGroup.split [_, _] chooses_switchLabel rfl rfl rfl rfl matched
  cases labels : (itemsOf nodes).filterMap switchLabel? with
  | nil => exact .done rfl (.switchBlock _) (by simpa [labels] using split)
  | cons label labels =>
    exact .done rfl (.switchBlock _) (by simpa [labels] using split)

theorem makes_switchGroup :
    Makes [one [.switchLabel], many [.switchLabel], one statements, many statements] []
      switchGroup (.of [.switchGroup]) := by
  refine .items fun nodes matched => ?_
  obtain ⟨front, back, rfl, head, tail⟩ := matches_append [_, _] matched
  have labels := head.items_among [.switchLabel] rfl
  have body := tail.items_among statements rfl
  have none := chooses_switchLabel.filterMap_eq_nil rfl body
  have filtered : (itemsOf (front ++ back)).filter (switchLabel? · |>.isNone) = itemsOf back := by
    rw [itemsOf_append, List.filter_append, List.filter_eq_nil_iff.mpr fun node member => ?_,
      List.filter_eq_self.mpr fun node member => ?_, List.nil_append]
    · obtain ⟨sort, among, holds⟩ := body node member
      simp [chooses_switchLabel.other holds fun same =>
        absurd (List.mem_singleton.mp same ▸ among) (by decide)]
    · obtain ⟨sort, among, holds⟩ := labels node member
      obtain ⟨label, chosen, -⟩ := chooses_switchLabel.chosen holds among
      simp [chosen]
  obtain ⟨parts, chosen, same⟩ := chooses_stmt.all (itemsOf back) fun node member => by
    obtain ⟨sort, among, holds⟩ := body node member
    exact ⟨sort, List.mem_cons_of_mem _ (List.mem_cons_of_mem _ among), holds⟩
  rw [filtered]
  refine .allAs chosen <| .done rfl (.switchGroup _) ?_
  simp [itemsOf_append, none, chooses_switchLabel.words_filterMap_of_all labels, same]

theorem makes_caseLabel :
    Makes [tokens [.caseWord], one expressions, token .colon] [] switchLabel
      (.of [.switchLabel]) := by
  refine .token fun part known => ?_
  simp only [List.mem_singleton] at known
  simp only [known]
  exact .expr fun value => .done rfl (.switchLabel _) (by simp)

theorem makes_defaultLabel :
    Makes [tokens [.defaultWord], token .colon] [] switchLabel (.of [.switchLabel]) := by
  refine .token fun part known => ?_
  simp only [List.mem_singleton] at known
  simp only [known]
  exact .done rfl (.switchLabel _) (by simp)

/-! ### Loops -/

theorem makes_whileStatement :
    Makes [token .whileWord, token .leftParen, one expressions, token .rightParen,
        one statements] []
      whileStatement (.of [.stmt]) :=
  .expect fun _ _ => .parenthesized fun condition => .statement fun body =>
    .done rfl (.stmt _) (by simp)

theorem makes_doStatement :
    Makes [token .doWord, one statements, token .whileWord, token .leftParen, one expressions,
        token .rightParen, token .semicolon] []
      doStatement (.of [.stmt]) :=
  .expect fun _ _ => .statement fun body => .expect fun _ _ => .expect fun _ _ =>
    .expr fun condition => .done rfl (.stmt _) (by simp)

theorem makes_forStatement :
    Makes [token .forWord, token .leftParen, .maybe [.part loopStart], token .semicolon,
        opt expressions, token .semicolon, .maybe [exprList], token .rightParen,
        one statements] []
      forStatement (.of [.stmt]) :=
  .expect fun _ _ => .expect fun _ _ => .loopStart fun start => .expect fun _ _ =>
    .takeExpr rfl fun condition => .expect fun _ _ => .loopUpdate fun update => .expect fun _ _ =>
    .statement fun body => .done rfl (.stmt _) (by simp)

theorem makes_forEachStatement :
    Makes [token .forWord, token .leftParen, many modifiers, one NodeSort.types,
        one [.bareDeclarator], token .colon, one expressions, token .rightParen,
        one statements] []
      forEachStatement (.of [.stmt]) :=
  .expect fun _ _ => .expect fun _ _ => .modifiers rfl fun modifiers => .type fun type =>
    .nextAs chooses_declarator rfl fun declarator => .expect fun _ _ => .expr fun iterable =>
    .expect fun _ _ => .statement fun body => .done rfl (.stmt _) (by simp)

/-! ### Jumps -/

theorem makes_jumpStatement :
    Makes [tokens kinds, opt [.identifier], token .semicolon] [] jumpStatement (.of [.stmt]) := by
  refine .token fun part _ => .takeIdentifier rfl fun label => ?_
  split
  · exact .done rfl (.stmt _) (by simp)
  · exact .done rfl (.stmt _) (by simp)

theorem makes_returnStatement :
    Makes [token .returnWord, opt expressions, token .semicolon] [] returnStatement
      (.of [.stmt]) :=
  .expect fun _ _ => .takeExpr rfl fun value => .done rfl (.stmt _) (by simp)

theorem makes_throwStatement :
    Makes [token .throwWord, one expressions, token .semicolon] [] throwStatement (.of [.stmt]) :=
  .expect fun _ _ => .expr fun value => .done rfl (.stmt _) (by simp)

theorem makes_synchronizedStatement :
    Makes [token .synchronizedWord, token .leftParen, one expressions, token .rightParen,
        one [.block]] []
      synchronizedStatement (.of [.stmt]) :=
  .expect fun _ _ => .parenthesized fun lock => .block fun body => .done rfl (.stmt _) (by simp)

/-! ### Try statements -/

theorem isTryPart_of {sort : NodeSort} {node : Node} (holds : sort.Holds node)
    (among : sort ∈ [NodeSort.catchClause, .finallyBlock]) : isTryPart node := by
  cases holds <;> first | rfl | simp at among

/-- Behind the block stand catch clauses and then at most one more block. -/
theorem makes_tryStatement (catches : List Piece)
    (within : (itemSortsOf catches).all (· ∈ [NodeSort.catchClause])) :
    Makes (token .tryWord :: opt [.resources] :: one [.block] ::
        (catches ++ [opt [.finallyBlock]])) []
      tryStatement (.of [.stmt]) := by
  have all : (itemSortsOf (catches ++ [opt [.finallyBlock]])).all
      (· ∈ [NodeSort.catchClause, .finallyBlock]) := by
    rw [itemSortsOf_append, List.all_append, Bool.and_eq_true]
    refine ⟨List.all_eq_true.mpr fun sort among => ?_, rfl⟩
    have known := List.all_eq_true.mp within sort among
    simp_all
  refine .expect fun _ _ => .take (?_ : Chooses [.resources] _) rfl rfl fun resources =>
    .block fun body => .acceptedItems isTryPart_of all fun nodes matched => ?_
  · exact ⟨fun holds => by cases holds <;> simp, fun _ _ => rfl⟩
  · obtain ⟨rest, matched, same, split⟩ :=
      chooses_catchClause.split catches chooses_finallyBlock rfl rfl within rfl matched
    have few : ((itemsOf rest).filterMap finallyBlock?).length ≤ 1 :=
      Nat.le_trans (List.length_filterMap_le ..) (matched.items_le_one rfl)
    refine .done rfl (.stmt _) ?_
    rw [List.nil_append, ← split, same, ← words_getLast? _ few]
    simp

theorem makes_catchClause :
    Makes [token .catchWord, token .leftParen, many modifiers, .part (.oneOrList NodeSort.types),
        one [.identifier], token .rightParen, one [.block]] []
      catchClause (.of [.catchClause]) :=
  .expect fun _ _ => .expect fun _ _ => .modifiers rfl fun modifiers =>
    .nextItems chooses_type rfl fun types => .identifier fun name => .expect fun _ _ =>
    .block fun body => .done rfl (.catchClause _) (by simp)

theorem makes_finallyBlock :
    Makes [token .finallyWord, one [.block]] [] finallyBlock (.of [.finallyBlock]) :=
  .expect fun _ _ => .block fun body => .done rfl (.finallyBlock _) (by simp)

theorem makes_resources :
    Makes [token .leftParen, one [.resource], many [.resource], .maybe [token .semicolon],
        token .rightParen] []
      resources (.of [.resources]) := by
  refine .allItems (?_ : Chooses [.resource] _) rfl fun resources =>
    .done rfl (.resources _) (by simp)
  exact ⟨fun holds => by cases holds <;> simp, fun _ _ => rfl⟩

theorem makes_resource :
    Makes [many modifiers, one NodeSort.types, one [.identifier], token .assign,
        one expressions] []
      resource (.of [.resource]) :=
  .modifiers rfl fun modifiers => .type fun type => .identifier fun name => .expect fun _ _ =>
    .expr fun initial => .done rfl (.resource _) (by simp)

end JavaFrontend.Java.Reduction
