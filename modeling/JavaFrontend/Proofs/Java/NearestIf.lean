import JavaFrontend.Proofs.Java.Ladder
import JavaFrontend.Proofs.Trees.Parses

/-!
An `else` belongs to the nearest `if`. What a parser for Java returns has no tree in which the
statement between an `if` and its `else` could itself take an `else` (`bound_of_parse`).
-/

namespace JavaFrontend.Java

open OperandM JavaFrontend.Java.Reduction

/-! ### What an `else` can follow -/

/-- Whether one more `else` could follow the statement: there is an `if` without one at its end,
where the last part of a statement is the body of a loop, what stands behind a label, and the branch
after `else`. -/
def Tree.isOpen {category : Category} : Tree category → Bool
  | .ifThen _ _ => true
  | .ifThenElse _ _ last | .whileLoop _ last | .forLoop _ _ _ last | .forEach _ _ last
  | .labeled _ last => last.isOpen
  | _ => false

/-- The tree is no `if` whose `else` could have followed the branch before it. -/
def Subtree.IsBound : Subtree → Prop
  | ⟨.ifThenElse _ body _⟩ => body.isOpen = false
  | _ => True

theorem isBound_of_isFree (subtree : Subtree) (free : subtree.isFree) : subtree.IsBound := by
  obtain ⟨tree⟩ := subtree
  cases tree with
  | ifThenElse => cases free
  | _ => trivial

/-- The node is no statement that an `else` could follow. -/
def IsClosed (node : Node) : Prop :=
  ∀ statement, node.stmt? = some statement → statement.isOpen = false

theorem isClosed_stmt {statement : Stmt} (closed : statement.isOpen = false) :
    IsClosed (.stmt statement) := by
  rintro _ ⟨⟩
  exact closed

theorem isClosed_list (rule : String) (items : List Node) : IsClosed (.list rule items) := by
  rintro _ ⟨⟩

theorem isClosed_ofToken (token : Token) : IsClosed (.ofToken token) := by
  unfold Node.ofToken
  split
  · rintro _ ⟨⟩
  · split <;> rintro _ ⟨⟩

theorem isClosed_of_holds {shape : Shape} {node : Node} (holds : shape.Holds node)
    (other : NodeSort.stmt ∉ shape.sorts) : IsClosed node := by
  cases holds with
  | list rule => exact isClosed_list rule _
  | @single sort _ among holds =>
    cases holds with
    | stmt => exact absurd among other
    | _ =>
      rintro _ same
      first
      | cases same; rfl
      | cases same

/-! ### The names of such statements -/

/-- Names of statements that no `else` can follow because none can follow their last parts. -/
def closedByParts : List String := [
  "StatementNoShortIf", "StatementWithoutTrailingSubstatement", "LabeledStatementNoShortIf",
  "IfThenElseStatementNoShortIf", "WhileStatementNoShortIf", "ForStatementNoShortIf",
  "BasicForStatementNoShortIf", "EnhancedForStatementNoShortIf"]

/-- Names of statements that no `else` can follow whatever their parts are. -/
def closedAlways : List String := [
  "EmptyStatement", "ExpressionStatement", "AssertStatement", "SwitchStatement", "DoStatement",
  "BreakStatement", "ContinueStatement", "ReturnStatement", "SynchronizedStatement",
  "ThrowStatement", "TryStatement"]

/-- Whether what the name stands for is no statement that an `else` could follow. -/
def isClosing (name : String) : Bool :=
  ((closedByParts ++ closedAlways).map code).contains (code name) ||
    (shapeOf name).any fun shape => !shape.sorts.contains .stmt

theorem isClosing_parts : ∀ alternative ∈ Grammar.rules,
    code alternative.name ∈ closedByParts.map code →
      (Element.bodyNames alternative.elements).all isClosing := by decide +kernel

/-- The rules of the others have tokens of their own. -/
theorem hasToken_of_closedAlways : ∀ alternative ∈ Grammar.rules,
    code alternative.name ∈ closedAlways.map code →
      alternative.elements.any fun
        | .token _ => true
        | _ => false := by decide +kernel

/-! ### Statements that an `else` cannot follow -/

theorem closed_statement : Yields IsClosed (fun body => body.isOpen = false) statement :=
  .nextAs _ fun same closed => closed _ same

private theorem closed_parenthesized : Yields IsClosed (fun _ => True) parenthesized :=
  .bind .asks fun _ _ => .bind .asks fun _ _ => .bind .asks fun _ _ => .pure trivial

theorem closed_labeledStatement : Yields IsClosed IsClosed labeledStatement :=
  .bind .asks fun _ _ => .bind .asks fun _ _ => .bind closed_statement fun _ closed =>
    .pure (isClosed_stmt closed)

theorem closed_whileStatement : Yields IsClosed IsClosed whileStatement :=
  .bind .asks fun _ _ => .bind closed_parenthesized fun _ _ =>
    .bind closed_statement fun _ closed => .pure (isClosed_stmt closed)

theorem closed_forStatement : Yields IsClosed IsClosed forStatement := by
  have look (kind : Kind) : Yields IsClosed (fun _ => True) (nextIs kind) :=
    .bind .peek fun _ _ => .pure trivial
  refine .bind .asks fun _ _ => .bind .asks fun _ _ => .bind (look _) fun _ _ => ?_
  extract_lets further
  have rest (start : Tree .forStart) : Yields IsClosed IsClosed (further start) := by
    refine .bind .asks fun _ _ => .bind .tries fun condition _ => .bind .asks fun _ _ =>
      .bind (look _) fun _ _ => ?_
    have last (update : List Expr) : Yields IsClosed IsClosed (do
        let _ ← expect .rightParen
        return Node.stmt (.forLoop start condition update (← statement))) :=
      .bind .asks fun _ _ => .bind closed_statement fun _ closed => .pure (isClosed_stmt closed)
    exact .ite (last []) (.bind .next fun _ _ => .bind .all fun update _ => last update)
  refine .ite (rest _) (.bind .next fun node _ => ?_)
  cases varDeclaration? node with
  | some declared => exact rest _
  | none => exact .bind .all fun _ _ => rest _

theorem closed_forEachStatement : Yields IsClosed IsClosed forEachStatement := by
  refine .bind .asks fun _ _ => .bind .asks fun _ _ => .bind .repeats fun _ _ =>
    .bind .asks fun _ _ => .bind .asks fun _ _ => .bind .asks fun _ _ => .bind .asks fun _ _ =>
      .bind .asks fun _ _ => .bind closed_statement fun _ closed => .pure (isClosed_stmt closed)

theorem closed_of_closedByParts : ∀ name ∈ closedByParts, ∀ reduction,
    name ≠ "IfThenElseStatementNoShortIf" → table.lookup name = some reduction →
      Yields IsClosed IsClosed reduction := by
  simp only [closedByParts, List.forall_mem_cons]
  refine ⟨?_, ?_, ?_, ?_, ?_, ?_, ?_, ?_, List.forall_mem_nil _⟩
  · rintro _ - ⟨⟩
  · rintro _ - ⟨⟩
  · rintro _ - ⟨⟩
    exact closed_labeledStatement
  · exact fun _ other => absurd rfl other
  · rintro _ - ⟨⟩
    exact closed_whileStatement
  · rintro _ - ⟨⟩
  · rintro _ - ⟨⟩
    exact closed_forStatement
  · rintro _ - ⟨⟩
    exact closed_forEachStatement

theorem closed_of_closedAlways : ∀ name ∈ closedAlways, ∀ reduction,
    table.lookup name = some reduction → Yields (fun _ => True) IsClosed reduction := by
  have done {statement : Stmt} (closed : statement.isOpen = false) :
      Yields (fun _ => True) IsClosed (pure (.stmt statement)) := .pure (isClosed_stmt closed)
  have jump : Yields (fun _ => True) IsClosed jumpStatement :=
    .bind (.any _) fun _ _ => .bind (.any _) fun _ _ => .ite (done rfl) (done rfl)
  simp only [closedAlways, List.forall_mem_cons]
  refine ⟨?_, ?_, ?_, ?_, ?_, ?_, ?_, ?_, ?_, ?_, ?_, List.forall_mem_nil _⟩
  all_goals rintro _ ⟨⟩
  · exact .bind (.any _) fun _ _ => done rfl
  · exact .bind (.any _) fun _ _ => done rfl
  · exact .bind (.any _) fun _ _ => .bind (.any _) fun _ _ => .bind (.any _) fun _ _ =>
      .ite (.bind (.any _) fun _ _ => done rfl) (done rfl)
  · exact .bind (.any _) fun _ _ => .bind (.any _) fun _ _ => .bind (.any _) fun _ _ => done rfl
  · exact .bind (.any _) fun _ _ => .bind (.any _) fun _ _ => .bind (.any _) fun _ _ =>
      .bind (.any _) fun _ _ => .bind (.any _) fun _ _ => done rfl
  · exact jump
  · exact jump
  · exact .bind (.any _) fun _ _ => .bind (.any _) fun _ _ => done rfl
  · exact .bind (.any _) fun _ _ => .bind (.any _) fun _ _ => .bind (.any _) fun _ _ => done rfl
  · exact .bind (.any _) fun _ _ => .bind (.any _) fun _ _ => done rfl
  · exact .bind (.any _) fun _ _ => .bind (.any _) fun _ _ => .bind (.any _) fun _ _ =>
      .bind (.any _) fun _ _ => .bind (.any _) fun _ _ => done rfl

/-! ### Conditions -/

/-- The reduction for conditions takes its operands one after the other. -/
theorem cases_of_ifStatement {name : String} {word left condition right body node : Node}
    {rest : List Node}
    (ran : (ifStatement.run ⟨name, word :: left :: condition :: right :: body :: rest⟩).1 =
      .ok node) :
    ∃ test inner, condition.expr? = some test ∧ body.stmt? = some inner ∧
      (node = .stmt (.ifThen test inner) ∧ rest.head?.bind (tokenOf? .elseWord) = none ∨
        ∃ token last more otherwise, rest = token :: last :: more ∧
          last.stmt? = some otherwise ∧ node = .stmt (.ifThenElse test inner otherwise)) := by
  obtain ⟨after, ran⟩ : ∃ after, ifStatement.run
      ⟨name, word :: left :: condition :: right :: body :: rest⟩ = (.ok node, after) :=
    ⟨_, Prod.ext ran rfl⟩
  obtain ⟨_, _, first, ran⟩ := ok_of_bind ran
  obtain ⟨_, _, ⟨⟩, -, rfl⟩ := ok_of_nextAs first
  obtain ⟨test, _, second, ran⟩ := ok_of_bind ran
  obtain ⟨inner, _, third, ran⟩ := ok_of_bind ran
  obtain ⟨_, _, opened, second⟩ := ok_of_bind second
  obtain ⟨_, _, ⟨⟩, -, rfl⟩ := ok_of_nextAs opened
  obtain ⟨_, _, tested, second⟩ := ok_of_bind second
  obtain ⟨_, _, ⟨⟩, isTest, rfl⟩ := ok_of_nextAs tested
  obtain ⟨_, _, closed, second⟩ := ok_of_bind second
  obtain ⟨_, _, ⟨⟩, -, rfl⟩ := ok_of_nextAs closed
  cases second
  obtain ⟨_, _, ⟨⟩, isInner, rfl⟩ := ok_of_nextAs third
  refine ⟨test, inner, isTest, isInner, ?_⟩
  obtain ⟨other, _, fourth, ran⟩ := ok_of_bind ran
  cases other with
  | none =>
    cases ran
    exact .inl ⟨rfl, ok_of_take_none fourth⟩
  | some token =>
    obtain ⟨_, _, rfl, -, rfl⟩ := ok_of_take fourth
    obtain ⟨otherwise, _, last, ran⟩ := ok_of_bind ran
    obtain ⟨_, _, rfl, isLast, rfl⟩ := ok_of_nextAs last
    cases ran
    exact .inr ⟨_, _, _, otherwise, rfl, isLast, rfl⟩

/-- The names that the reduction for conditions is for. -/
def conditions : List String := [
  "IfThenStatement", "IfThenElseStatement", "IfThenElseStatementNoShortIf"]

/-- What stands before the parts that are statements. -/
def header : List Element :=
  [.token .ifWord, .token .leftParen, .rule "Expression", .token .rightParen]

theorem mem_conditions : ∀ alternative ∈ Grammar.rules,
    code alternative.name ∈ conditions.map code →
      alternative ∈ [
        ⟨"IfThenStatement", header ++ [Element.rule "Statement"]⟩,
        ⟨"IfThenElseStatement",
          header ++ [Element.rule "StatementNoShortIf", .token .elseWord, .rule "Statement"]⟩,
        ⟨"IfThenElseStatementNoShortIf",
          header ++
            [Element.rule "StatementNoShortIf", .token .elseWord, .rule "StatementNoShortIf"]⟩] := by
  decide +kernel

/-- What is known of what is built for a name. -/
def Knows (name : String) (_ : List Token) (node : Node) : Prop :=
  Every Subtree.IsBound node ∧ (name ∈ closedByParts ++ closedAlways → IsClosed node)

section Conditions

variable {name : String} {tokens : List Token} {parts : Production}
  {word left condition right body node : Node} {nodes rest : List Node}

/-- If an `if` has an `else` then none could follow the branch before. -/
theorem every_of_ifStatement
    (every : Every Subtree.IsBound (word :: left :: condition :: right :: body :: rest))
    (closed : rest ≠ [] → IsClosed body)
    (ran : (ifStatement.run ⟨name, word :: left :: condition :: right :: body :: rest⟩).1 =
      .ok node) : Every Subtree.IsBound node := by
  simp only [every_cons] at every
  obtain ⟨-, -, ofTest, -, ofInner, ofRest⟩ := every
  obtain ⟨test, inner, isTest, isInner, ⟨rfl, -⟩ | ⟨token, last, more, other, rfl, isLast, rfl⟩⟩ :=
    cases_of_ifStatement ran
  · have first := passes_expr isBound_of_isFree isTest ofTest
    have second := passes_stmt isBound_of_isFree isInner ofInner
    exact every_node rfl trivial (every_both first second)
  · simp only [every_cons] at ofRest
    have first := passes_expr isBound_of_isFree isTest ofTest
    have second := passes_stmt isBound_of_isFree isInner ofInner
    have third := passes_stmt isBound_of_isFree isLast ofRest.2.1
    exact every_node rfl (closed (List.cons_ne_nil _ _) inner isInner)
      (every_cons.mpr ⟨first, every_both second third⟩)

/-- No `else` can follow a condition with an `else` that could not follow what stands behind it. -/
theorem closed_of_ifStatement {token : Token} {last : Node} (fit : Fitting token)
    (isElse : token.kind = .elseWord) (closed : IsClosed last)
    (ran : (ifStatement.run
      ⟨name, [word, left, condition, right, body, .ofToken token, last]⟩).1 = .ok node) :
    IsClosed node := by
  obtain ⟨test, inner, -, -, ⟨-, none⟩ | ⟨_, _, _, other, ⟨⟩, isLast, rfl⟩⟩ :=
    cases_of_ifStatement ran
  · rw [ofToken_of_fitting fit (by rw [isElse]; decide)] at none
    simp [tokenOf?, token?, isElse] at none
  · exact isClosed_stmt (closed other isLast)

/-- The operands of a condition up to its first branch. -/
theorem nodes_of_header {elements : List Element}
    (made : Made (fun name tokens node => Typed name node ∧ Knows name tokens node)
      (header ++ .rule name :: elements) tokens parts nodes) :
    ∃ word left condition right body rest further inner, nodes =
        word :: left :: condition :: right :: body :: rest ∧ (∃ own, Knows name own body) ∧
      further ⊆ tokens ∧ Made (fun name tokens node => Typed name node ∧ Knows name tokens node)
        elements further inner rest := by
  cases made with
  | token word _ made =>
    cases made with
    | token left _ made =>
      cases made with
      | rule _ made =>
        cases made with
        | token right _ made =>
          cases made with
          | rule knows made =>
            refine ⟨_, _, _, _, _, _, _, _, rfl, ⟨_, knows.2⟩, fun token among => ?_, made⟩
            simp [among]

theorem knows_of_conditions {alternative : Alternative} (member : alternative ∈ Grammar.rules)
    (among : code alternative.name ∈ conditions.map code)
    (fit : ∀ token ∈ tokens, Fitting token)
    (made : Made (fun name tokens node => Typed name node ∧ Knows name tokens node)
      alternative.elements tokens parts nodes)
    (reduces : Reduces alternative.name parts nodes node) :
    Knows alternative.name tokens node := by
  have every : Every Subtree.IsBound nodes := made.every fun _ _ _ both => both.2.1
  have known := mem_conditions alternative member among
  simp only [List.mem_cons, List.not_mem_nil, or_false] at known
  rcases known with rfl | rfl | rfl
  · obtain ⟨_, _, _, _, _, _, _, _, rfl, -, -, made⟩ := nodes_of_header made
    cases made
    rcases reduces.cases with ⟨⟨⟩, -⟩ | ⟨_, ⟨⟩, ran⟩
    refine ⟨every_of_ifStatement every (absurd rfl) ran, fun other => ?_⟩
    exact absurd other (by decide)
  · obtain ⟨_, _, _, _, _, _, _, _, rfl, ⟨_, closed⟩, -, made⟩ := nodes_of_header made
    rcases reduces.cases with ⟨⟨⟩, -⟩ | ⟨_, ⟨⟩, ran⟩
    refine ⟨every_of_ifStatement every (fun _ => closed.2 (by decide)) ran, fun other => ?_⟩
    exact absurd other (by decide)
  · obtain ⟨_, _, _, _, _, _, _, _, rfl, ⟨_, closed⟩, inside, behind⟩ := nodes_of_header made
    rcases reduces.cases with ⟨⟨⟩, -⟩ | ⟨_, ⟨⟩, ran⟩
    refine ⟨every_of_ifStatement every (fun _ => closed.2 (by decide)) ran, fun _ => ?_⟩
    cases behind with
    | token token isElse behind =>
      cases behind with
      | rule last behind =>
        cases behind
        exact closed_of_ifStatement (fit token (inside List.mem_cons_self)) isElse
          (last.2.2 (by decide)) ran

end Conditions

/-! ### All rules -/

theorem keeps_of_guarded : ∀ name ∈ guarded, name ∉ conditions → ∀ reduction,
    table.lookup name = some reduction → Keeps Subtree.IsBound reduction := by
  have free := isBound_of_isFree
  have merges (budget : Nat) : Merges Subtree.IsBound budget := by
    refine fun type dims every _ => every_withDims (fun some => ?_) every
    obtain ⟨less, rfl⟩ := Nat.exists_eq_succ_of_ne_zero some
    cases type <;> trivial
  have declares : Keeps Subtree.IsBound varDeclaration :=
    (parts_varDeclaration free).mono fun _ ⟨_, _, _, same, parts⟩ => same ▸ every_tree trivial parts
  simp only [guarded, List.forall_mem_cons]
  refine ⟨?_, ?_, ?_, ?_, ?_, ?_, ?_, ?_, ?_, ?_, ?_, ?_, ?_, ?_, ?_, List.forall_mem_nil _⟩
  all_goals rintro other _ ⟨⟩
  · exact parts_classType.mono fun _ ⟨_, same, parts⟩ => same ▸ every_node rfl trivial parts
  · exact Spends.yields fun _ => (spends_arrayType (merges _)).mono fun _ _ => And.left
  · exact keeps_fieldDeclaration free declares
  · exact Spends.yields fun _ => spends_methodDeclaration free (merges _)
  · exact Spends.yields fun _ => spends_formalParameter free (merges _)
  · exact keeps_localVariables declares
  · exact absurd (by decide) other
  · exact absurd (by decide) other
  · exact absurd (by decide) other
  · exact (parts_switchStatement free).mono fun _ ⟨_, _, same, parts⟩ =>
      same ▸ every_node rfl trivial parts
  · exact (parts_switchGroup free).mono fun _ ⟨_, _, same, parts⟩ =>
      same ▸ every_node rfl trivial parts
  · exact parts_tryStatement.mono fun _ ⟨_, _, _, _, same, parts⟩ =>
      same ▸ every_node rfl trivial parts
  · exact (parts_catchClause free).mono fun _ ⟨_, _, _, _, same, parts⟩ =>
      same ▸ every_node rfl trivial parts
  · exact Spends.yields fun _ => spends_classLiteral free (merges _)
  · refine (parts_arrayCreation free).mono fun _ ⟨_, same, array, parts⟩ => ?_
    cases array <;> exact same ▸ every_node rfl trivial parts

theorem keeps_bound {name : String} {reduction : OperandM Node}
    (found : table.lookup name = some reduction) (other : name ∉ conditions) :
    Keeps Subtree.IsBound reduction := by
  by_cases among : name ∈ guarded
  · exact keeps_of_guarded name among other reduction found
  · exact keeps_of_lookup isBound_of_isFree found among

/-- Where the elements have a token of their own, the parts have. -/
theorem mem_parts_of_token {Holds : String → List Token → Node → Prop} {elements : List Element}
    {tokens : List Token} {parts : Production} {nodes : List Node}
    (made : Made Holds elements tokens parts nodes)
    (some : elements.any fun
      | .token _ => true
      | _ => false) : ∃ kind, .token kind ∈ parts := by
  induction made with
  | nil => cases some
  | @token kind => exact ⟨kind, List.mem_cons_self⟩
  | rule _ _ ih | times _ _ _ _ _ _ _ ih =>
    obtain ⟨kind, among⟩ := ih (by simpa using some)
    exact ⟨kind, List.mem_cons_of_mem _ among⟩
  | absent _ _ ih | never _ _ ih => exact ih (by simpa using some)
  | present _ _ _ ih =>
    obtain ⟨kind, among⟩ := ih (by simpa using some)
    exact ⟨kind, List.mem_append_right _ among⟩

section Rules

variable {alternative : Alternative} {tokens : List Token} {parts : Production}
  {nodes : List Node} {node : Node} {name : String}

theorem isClosed_of_isClosing (closing : isClosing name) (typed : Typed name node)
    (knows : Knows name tokens node) : IsClosed node := by
  unfold isClosing at closing
  rcases Bool.or_eq_true_iff.mp closing with listed | other
  · exact knows.2 (mem_map_code_iff.mp (by simpa using listed))
  · cases known : shapeOf name with
    | none =>
      rw [known] at other
      cases other
    | some shape =>
      rw [known] at other
      exact isClosed_of_holds (typed shape known) (by simpa using other)

/-- Every alternative hands on what is known of the names in it. -/
theorem knows_of_made (member : alternative ∈ Grammar.rules)
    (fit : ∀ token ∈ tokens, Fitting token)
    (made : Made (fun name tokens node => Typed name node ∧ Knows name tokens node)
      alternative.elements tokens parts nodes)
    (reduces : Reduces alternative.name parts nodes node) :
    Knows alternative.name tokens node := by
  by_cases among : alternative.name ∈ conditions
  · exact knows_of_conditions member (mem_map_code_iff.mpr among) fit made reduces
  have every : Every Subtree.IsBound nodes := made.every fun _ _ _ both => both.2.1
  constructor
  · rcases reduces.cases with ⟨rfl, -⟩ | ⟨reduction, found, ran⟩
    · exact (every_cons.mp every).1
    · exact every_of_run (keeps_bound found among) every ran
  · intro closing
    rcases List.mem_append.mp closing with byParts | always
    · have closed : ∀ node ∈ nodes, IsClosed node := by
        have names := isClosing_parts alternative member (mem_map_code_iff.mpr byParts)
        refine made.fine isClosed_ofToken (fun rule items _ => isClosed_list rule items) ?_
        intro name inside _ _ both
        exact isClosed_of_isClosing (List.all_eq_true.mp names name inside) both.1 both.2
      rcases reduces.cases with ⟨rfl, -⟩ | ⟨reduction, found, ran⟩
      · exact closed node (List.mem_singleton_self node)
      · have yields := closed_of_closedByParts _ byParts reduction
          (fun same => among (by rw [same]; decide)) found
        exact (yields ⟨_, nodes⟩ closed node _ (Prod.ext ran rfl)).1
    · rcases reduces.cases with ⟨-, target, rfl⟩ | ⟨reduction, found, ran⟩
      · obtain ⟨kind, inside⟩ := mem_parts_of_token made
          (hasToken_of_closedAlways alternative member (mem_map_code_iff.mpr always))
        cases List.mem_singleton.mp inside
      · have yields := closed_of_closedAlways _ always reduction found
        exact (yields ⟨_, nodes⟩ (fun _ _ => trivial) node _ (Prod.ext ran rfl)).1

end Rules

/-! ### Texts -/

/-- Whatever the text, no tree in what is made of it has an `if` with an `else` that the branch
before could itself have taken. -/
theorem bound_of_parse {parser : Parser Node} (isParser : IsParser parser) (typeContext : Bool)
    (source : String) {root : Node}
    (parsed : ({ parser with typeContext } : Parser Node).parse (.ofString source) = .ok root) :
    ∀ tree ∈ root.trees, ∀ inner ∈ tree.preorder, inner.IsBound := by
  obtain ⟨goal, expansion, grammar, parses⟩ := isParser.parses typeContext
  exact parses.every_of_parse isBound_of_isFree
    (fun alternative member tokens parts nodes node fit made reduces _ =>
      knows_of_made member fit made reduces)
    (fun _ _ _ knows => knows.1) parsed

/-- A condition with an `else` inside of one without is a statement. -/
theorem means_dangling : Means (Grammar.withGoal "Statement").alternatives [.rule "Statement"]
    [.ifWord, .leftParen, .identifier, .rightParen, .ifWord, .leftParen, .identifier, .rightParen,
      .semicolon, .elseWord, .semicolon] := by
  let alternatives := (Grammar.withGoal "Statement").alternatives
  have name : Means alternatives [.rule "Expression"] [.identifier] :=
    means_chain (List.subset_cons_self _ _) (List.forall_mem_nil _)
  have test {elements : List Element} {kinds : List Kind}
      (body : Means alternatives elements kinds) :
      Means alternatives (header ++ elements)
        (.ifWord :: .leftParen :: .identifier :: .rightParen :: kinds) :=
    .token .ifWord (.token .leftParen (name.append (.token .rightParen body)))
  have empty : Means alternatives [.rule "EmptyStatement"] [.semicolon] :=
    means_name (by decide) (.token .semicolon .nil)
  have simple : Means alternatives [.rule "StatementWithoutTrailingSubstatement"] [.semicolon] :=
    means_name (by decide) empty
  have closed : Means alternatives [.rule "StatementNoShortIf"] [.semicolon] :=
    means_name (by decide) simple
  have last : Means alternatives [.rule "Statement"] [.semicolon] :=
    means_name (by decide) simple
  have inner : Means alternatives [.rule "IfThenElseStatement"] _ :=
    means_name (by decide) (test (closed.append (.token .elseWord last)))
  have body : Means alternatives [.rule "Statement"] _ := means_name (by decide) inner
  have outer : Means alternatives [.rule "IfThenStatement"] _ :=
    means_name (by decide) (test body)
  exact means_name (by decide) outer

/-- Of two conditions in front of an `else`, the second has it. -/
theorem bound_of_dangling : ∃ (parser : Parser Node) (root : Node), IsParser parser ∧
    ({ parser with typeContext := true } : Parser Node).parse (.ofString "if(a)if(b);else;") =
      .ok root ∧
    ∀ tree ∈ root.trees, ∀ inner ∈ tree.preorder, inner.IsBound := by
  obtain ⟨grammar, built⟩ := Grammar.exists_build (.fragment "Statement") (by decide)
  have made : fragmentParser "Statement" = .ok (.ofBuilder grammar (builder grammar)) := by
    rw [fragmentParser, Grammar.forGoal, built]
    rfl
  have isParser : IsParser (Parser.ofBuilder grammar (builder grammar)) := .fragment _ made
  obtain ⟨_, parses⟩ := parses_of_build (.fragment "Statement") built true
  let tokens : List Token := [⟨.ifWord, "if", ⟨1, 1⟩, .none⟩, ⟨.leftParen, "(", ⟨1, 3⟩, .none⟩,
    ⟨.identifier, "a", ⟨1, 4⟩, .none⟩, ⟨.rightParen, ")", ⟨1, 5⟩, .none⟩,
    ⟨.ifWord, "if", ⟨1, 6⟩, .none⟩, ⟨.leftParen, "(", ⟨1, 8⟩, .none⟩,
    ⟨.identifier, "b", ⟨1, 9⟩, .none⟩, ⟨.rightParen, ")", ⟨1, 10⟩, .none⟩,
    ⟨.semicolon, ";", ⟨1, 11⟩, .none⟩, ⟨.elseWord, "else", ⟨1, 12⟩, .none⟩,
    ⟨.semicolon, ";", ⟨1, 16⟩, .none⟩]
  have waiting : (Lexer.ofString "if(a)if(b);else;").pending =
      tokens ++ [.endOfInput ⟨1, 17⟩] := by decide +kernel
  have single : ∀ token ∈ tokens, token.isJoined = false := by decide
  obtain ⟨root, _, parsed, -, -⟩ := parses.parse_of_generates waiting (by decide)
    (generates_of_goal (.fragment "Statement") built means_dangling)
    fun first token rest split joined => by
      rw [single token (by simp [split])] at joined
      cases joined
  exact ⟨_, root, isParser, parsed, bound_of_parse isParser true _ parsed⟩

end JavaFrontend.Java
