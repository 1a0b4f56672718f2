import JavaFrontend.Proofs.Java.Making
import JavaFrontend.Proofs.Trees.Expressions

/-!
What holds of every tree in what a parser for Java returns. If every alternative of the grammar
makes nodes of which it holds from nodes of which it holds, then it holds of all that is parsed
(`Parses.every_of_parse`).
-/

namespace JavaFrontend.Java

open OperandM JavaFrontend.Java.Reduction

variable {Holds : Subtree → Prop} {Knows : String → List Token → Node → Prop}
  {Fine : Node → Prop} {elements : List Element} {tokens : List Token} {parts : Production}
  {nodes : List Node} {node : Node} {name : String}

/-! ### Nodes of rows -/

theorem bodyItems_subset (body : List Node) : TreeBuilder.bodyItems false body ⊆ body := by
  unfold TreeBuilder.bodyItems
  rw [if_neg Bool.false_ne_true]
  split
  · exact List.take_subset 1 body
  · exact fun _ among => (List.mem_filter.mp among).1

/-- What holds of the leaves of the tokens, of lists of such nodes and of what the names in a row
stand for, holds of all nodes that the row is made into. -/
theorem Made.fine_of_leaves (made : Made Knows elements tokens parts nodes)
    (leaf : ∀ token ∈ tokens, Fine (.ofToken token))
    (list : ∀ rule items, (∀ item ∈ items, Fine item) → Fine (.list rule items))
    (each : ∀ name ∈ Element.bodyNames elements, ∀ inner node, inner.Sublist tokens →
      Knows name inner node → Fine node) :
    ∀ node ∈ nodes, Fine node := by
  induction made with
  | nil => exact List.forall_mem_nil _
  | token token _ _ ih =>
    obtain ⟨here, later⟩ := List.forall_mem_cons.mp leaf
    exact List.forall_mem_cons.mpr ⟨here, ih later fun name member inner node inside =>
      each name member inner node (.cons _ inside)⟩
  | rule knows _ ih =>
    obtain ⟨-, later⟩ := List.forall_mem_append.mp leaf
    simp only [Element.bodyNames, Element.names, List.singleton_append, List.forall_mem_cons]
      at each
    exact List.forall_mem_cons.mpr ⟨each.1 _ _ (List.sublist_append_left _ _) knows,
      ih later fun name member inner node inside =>
        each.2 name member inner node (inside.trans (List.sublist_append_right _ _))⟩
  | absent _ _ ih | never _ _ ih => exact ih leaf (List.forall_mem_append.mp each).2
  | present _ _ insideIh restIh =>
    obtain ⟨front, back⟩ := List.forall_mem_append.mp leaf
    obtain ⟨here, later⟩ := List.forall_mem_append.mp each
    refine List.forall_mem_append.mpr
      ⟨insideIh front fun name member inner node inside =>
        here name member inner node (inside.trans (List.sublist_append_left _ _)),
      restIh back fun name member inner node inside =>
        later name member inner node (inside.trans (List.sublist_append_right _ _))⟩
  | times name element occurrences _ _ _ eachIh restIh =>
    obtain ⟨front, back⟩ := List.forall_mem_append.mp leaf
    obtain ⟨here, later⟩ := List.forall_mem_append.mp each
    refine List.forall_mem_cons.mpr ⟨list _ _ fun item among => ?_,
      restIh back fun name member inner node inside =>
        later name member inner node (inside.trans (List.sublist_append_right _ _))⟩
    obtain ⟨occurrence, member, inside⟩ := List.mem_flatMap.mp among
    have within := sublist_flatMap (·.1) member
    exact eachIh occurrence member (fun token among => front token (within.subset among))
      (fun name member inner node own => here name member inner node
        ((own.trans within).trans (List.sublist_append_left _ _)))
      item (bodyItems_subset _ inside)

/-- What holds of all leaves need not be known of the tokens. -/
theorem Made.fine (made : Made Knows elements tokens parts nodes)
    (leaf : ∀ token, Fine (.ofToken token))
    (list : ∀ rule items, (∀ item ∈ items, Fine item) → Fine (.list rule items))
    (each : ∀ name ∈ Element.bodyNames elements, ∀ tokens node,
      Knows name tokens node → Fine node) :
    ∀ node ∈ nodes, Fine node :=
  made.fine_of_leaves (fun token _ => leaf token) list fun name member inner node _ =>
    each name member inner node

/-- A name alone hands a node on, and all else is made by the reduction of the name. -/
theorem Reduces.cases (reduces : Reduces name parts nodes node) :
    nodes = [node] ∧ (∃ target, parts = [.rule target]) ∨
      ∃ reduction, table.lookup name = some reduction ∧
        (reduction.run ⟨name, nodes⟩).1 = .ok node := by
  unfold Reduces at reduces
  cases target : (⟨name, parts⟩ : Rule).unitTarget? with
  | some other =>
    rw [target] at reduces
    exact .inl ⟨reduces, other, DerivationTree.parts_of_unitTarget target⟩
  | none =>
    rw [target] at reduces
    exact .inr reduces

theorem every_ofToken (token : Token) : Every Holds (Node.ofToken token) := by
  apply every_bare
  unfold Node.ofToken
  split
  · rfl
  · split <;> rfl

/-- It holds of all trees in the nodes of a row if it does in what the names stand for. -/
theorem Made.every (made : Made Knows elements tokens parts nodes)
    (each : ∀ name tokens node, Knows name tokens node → Every Holds node) : Every Holds nodes :=
  every_list.mpr (made.fine every_ofToken
    (fun _ _ all => every_listNode.mpr (every_list.mpr all)) fun name _ => each name)

/-- What a reduction that keeps it makes has it. -/
theorem every_of_run {reduction : OperandM Node} (keeps : Keeps Holds reduction)
    (every : Every Holds nodes) (ran : (reduction.run ⟨name, nodes⟩).1 = .ok node) :
    Every Holds node := keeps.of_run (every_list.mp every) ran

/-! ### Reductions -/

/-- The names whose reductions build trees that are sound only of parts of some form. -/
def guarded : List String := [
  "ClassType", "ArrayType", "FieldDeclaration", "MethodDeclaration", "FormalParameter",
  "LocalVariableDeclaration", "IfThenStatement", "IfThenElseStatement",
  "IfThenElseStatementNoShortIf", "SwitchStatement", "SwitchBlockStatementGroup", "TryStatement",
  "CatchClause", "ClassLiteral", "ArrayCreationExpression"]

/-- All other reductions keep what holds of trees that may be built of any parts. -/
theorem keeps_table (free : ∀ subtree : Subtree, subtree.isFree → Holds subtree) :
    ∀ entry ∈ table, entry.1 ∈ guarded ∨ Keeps Holds entry.2 := by
  simp only [table, List.forall_mem_cons]
  exact ⟨
    .inr (keeps_compilationUnit free), .inr (keeps_packageDeclaration free),
    .inr (keeps_importDeclaration free), .inr keeps_empty, .inr keeps_dottedName,
    .inr (keeps_primitiveType free), .inl (by decide), .inr (keeps_simpleClassType free),
    .inl (by decide), .inr keeps_arrayDims, .inr (keeps_typeArgumentList free),
    .inr (keeps_wildcard free), .inr keeps_typeParameterList, .inr (keeps_typeParameter free),
    .inr keeps_additionalBound, .inr (keeps_annotationUse free), .inr (keeps_elementPair free),
    .inr (keeps_elementArray free), .inr (keeps_classDeclaration free), .inr (keeps_modifier free),
    .inr (keeps_modifier free), .inr keeps_superclass, .inr keeps_interfaces, .inr keeps_interfaces,
    .inr (keeps_classBody free), .inr keeps_empty, .inr (keeps_staticInitializer free),
    .inl (by decide), .inr keeps_list, .inr (keeps_variableDeclarator free),
    .inr (keeps_variableDeclaratorId free), .inl (by decide), .inr keeps_first, .inr keeps_list,
    .inl (by decide), .inr keeps_exceptions, .inr keeps_empty,
    .inr (keeps_constructorDeclaration free), .inr (keeps_braces free),
    .inr (keeps_constructorCall free), .inr (keeps_enumDeclaration free),
    .inr (keeps_enumBody free), .inr (keeps_enumConstant free),
    .inr (keeps_enumBodyDeclarations free), .inr (keeps_interfaceDeclaration free),
    .inr (keeps_arrayInitializer free), .inr (keeps_braces free),
    .inr (keeps_variablesStatement free), .inl (by decide), .inr (keeps_emptyStatement free),
    .inr (keeps_labeledStatement free), .inr (keeps_labeledStatement free),
    .inr (keeps_exprStatement free), .inl (by decide), .inl (by decide), .inl (by decide),
    .inr (keeps_assertStatement free), .inl (by decide), .inr (keeps_switchBlock free),
    .inl (by decide), .inr (keeps_switchLabel free), .inr (keeps_whileStatement free),
    .inr (keeps_whileStatement free), .inr (keeps_doStatement free), .inr (keeps_forStatement free),
    .inr (keeps_forStatement free), .inr keeps_list, .inr (keeps_forEachStatement free),
    .inr (keeps_forEachStatement free), .inr (keeps_jumpStatement free),
    .inr (keeps_jumpStatement free), .inr (keeps_returnStatement free),
    .inr (keeps_throwStatement free), .inr (keeps_synchronizedStatement free), .inl (by decide),
    .inl (by decide), .inr keeps_list, .inr keeps_finallyBlock, .inr keeps_resources,
    .inr (keeps_resource free), .inr (keeps_primary free), .inr keeps_first, .inl (by decide),
    .inr (keeps_qualifiedCreation free), .inr (keeps_creation free), .inr keeps_diamond,
    .inr (keeps_argumentList free), .inr (keeps_fieldAccess free), .inr (keeps_arrayAccess free),
    .inr (keeps_methodInvocation free), .inr (keeps_methodReference free), .inl (by decide),
    .inr keeps_list, .inr (keeps_dimensionLength free), .inr (keeps_lambda free),
    .inr (keeps_lambdaParameters free), .inr (keeps_assignment free), .inr keeps_first,
    .inr (keeps_conditional free), .inr (keeps_binary free), .inr (keeps_binary free),
    .inr (keeps_binary free), .inr (keeps_binary free), .inr (keeps_binary free),
    .inr (keeps_binary free), .inr (keeps_binary free), .inr (keeps_binary free),
    .inr (keeps_binary free), .inr (keeps_binary free), .inr (keeps_leading free),
    .inr (keeps_leading free), .inr (keeps_leading free), .inr (keeps_leading free),
    .inr (keeps_trailing free), .inr (keeps_trailing free), .inr (keeps_cast free),
    List.forall_mem_nil _⟩

theorem keeps_of_lookup (free : ∀ subtree : Subtree, subtree.isFree → Holds subtree)
    {reduction : OperandM Node} (found : table.lookup name = some reduction)
    (other : name ∉ guarded) : Keeps Holds reduction := by
  obtain ⟨front, back, same, -⟩ := List.lookup_eq_some_iff.mp found
  exact (keeps_table free (name, reduction) (by simp [same])).resolve_left other

/-! ### Texts -/

variable {goal : Element} {expansion : Expansion} {grammar : JavaFrontend.Grammar}
  {parser : Parser Node} {root : Node}

/-- What is parsed was built of the tokens that were taken from some tape, of which anything holds
that holds of the one at the start and that reading and going back to the start keep. -/
theorem Parses.builds_of_tapes (parses : Parses goal expansion grammar parser) {source : String}
    (Good : Tape → Prop) (start : Good { source := .ofString source })
    (next : ∀ (tape rest : Tape) inTypes token, Good tape →
      tape.next inTypes = .ok (token, rest) → Good rest)
    (rewind : ∀ tape, Good tape → Good tape.rewind)
    (parsed : parser.parse (.ofString source) = .ok root) :
    ∃ tape splits tokens, tape.Drawn (.ofString source) ∧ Good tape ∧
      tokens <+: Parser.taken splits tape ∧ (∀ token ∈ tokens, Fitting token) ∧
      parser.Builds [.rule grammar.start] tokens [root] := by
  obtain ⟨earlier, pass, passes, outcome⟩ := Parser.outcome_of_parse parsed (by simp)
  let Kept (tape : Tape) := tape.Drawn (.ofString source) ∧ Good tape
  have kept (splits : List Position) (tape : Tape) (holds : Kept tape) :
      Kept (parser.pass splits tape).tape :=
    Parser.kept_pass _ (fun tape rest inTypes token holds ran =>
      ⟨holds.1.next ran, next tape rest inTypes token holds.2 ran⟩) holds
  obtain ⟨tape, holds, unread, rfl⟩ := Parser.begin_of_passes Kept
    ⟨⟨.here, by simp, by simp⟩, start⟩
    (fun splits tape holds => by
      obtain ⟨drawn, good⟩ := kept splits tape holds
      exact ⟨drawn.rewind, rewind _ good⟩) passes
  obtain ⟨drawn, good⟩ := kept (Parser.splitsAfter earlier) tape holds
  have fit : ∀ token ∈ Parser.taken (Parser.splitsAfter earlier) _, Fitting token :=
    fitting_of_taken drawn
  have built := (Parser.outcome_of_pass parses.ready parses.total unread fit).2 root outcome
  obtain ⟨typeContext, rfl⟩ := parses.made
  exact ⟨_, _, _, drawn, good, List.take_prefix _ _,
    fun token member => fit token (List.mem_of_mem_take member), built⟩

/-- What is parsed was built of the tokens of the text. -/
theorem Parses.builds_of_parse (parses : Parses goal expansion grammar parser) {source : String}
    (parsed : parser.parse (.ofString source) = .ok root) :
    ∃ tokens, (∀ token ∈ tokens, Fitting token) ∧
      parser.Builds [.rule grammar.start] tokens [root] := by
  obtain ⟨_, _, tokens, -, -, -, fit, built⟩ := parses.builds_of_tapes (fun _ => True) trivial
    (fun _ _ _ _ _ _ => trivial) (fun _ _ => trivial) parsed
  exact ⟨tokens, fit, built⟩

/-- What is so of nodes and the tokens they are built of is so of leaves, of lists, of more tokens,
and of what the goal makes of its operands. -/
structure Collects (Result : List Token → Node → Prop) : Prop where
  leaf : ∀ tokens token, Result tokens (.ofToken token)
  list : ∀ rule tokens items, (∀ item ∈ items, Result tokens item) →
    Result tokens (.list rule items)
  more : ∀ inner tokens node, inner.Sublist tokens → Result inner node → Result tokens node
  goal : ∀ tokens nodes node, (∀ operand ∈ nodes, Result tokens operand) →
    (unitGoal.run ⟨Grammar.goalName, nodes⟩).1 = .ok node → Result tokens node

section Steps

variable {Result : List Token → Node → Prop} (collects : Collects Result)
  (parses : Parses goal expansion grammar parser)
  (step : ∀ alternative ∈ Grammar.rules, ∀ (tokens : List Token) (parts : Production)
    (nodes : List Node) (node : Node), (∀ token ∈ tokens, Fitting token) →
      Made (fun name tokens node => Typed name node ∧ Knows name tokens node)
          alternative.elements tokens parts nodes →
        Reduces alternative.name parts nodes node → Typed alternative.name node →
          Knows alternative.name tokens node)
  (knows : ∀ name tokens node, Knows name tokens node → Result tokens node)
include collects parses step knows

/-- It is so of what is built for a name of the grammar. -/
theorem Parses.result_of_name (fit : ∀ token ∈ tokens, Fitting token)
    (known : name ∈ Grammar.rules.map (·.name) ∨ ∃ body, (body, name) ∈ expansion.repetitions)
    (built : parser.Builds [.rule name] tokens [node]) : Result tokens node := by
  cases parses.row_of_typed step fit built with
  | cons head tail =>
    cases tail
    rw [List.append_nil]
    cases head with
    | rule holds times =>
      rcases known with known | ⟨body, named⟩
      · exact knows name _ node (holds known).2
      · obtain ⟨element, occurrences, -, rfl, rfl, each⟩ := times body named
        refine collects.list _ _ _ fun item among => ?_
        obtain ⟨occurrence, member, inside⟩ := List.mem_flatMap.mp among
        have known : Made (fun _ _ node => Result _ node) body occurrence.1 occurrence.2.1
            occurrence.2.2 :=
          (each occurrence member).mono fun name inner node within both =>
            collects.more _ _ _ (within.trans (sublist_flatMap (·.1) member))
              (knows name inner node both.2)
        exact known.fine (collects.leaf _) (fun rule items => collects.list rule _ items)
          (fun _ _ _ _ => id) item (bodyItems_subset _ inside)

/-- It is so of what is built for the goal. -/
theorem Parses.result_of_goal (fit : ∀ token ∈ tokens, Fitting token)
    (built : parser.Builds [.rule grammar.start] tokens [node]) : Result tokens node := by
  -- A goal that is the goal itself would be built of fewer and fewer tokens.
  induction length : tokens.length using Nat.strongRecOn generalizing tokens node with
  | ind n ih =>
    obtain ⟨finish, operands, -, ran, below⟩ := parses.goal_of_builds built
    have all : ∀ operand ∈ operands ++ [.ofToken finish], Result tokens operand := by
      refine List.forall_mem_append.mpr ⟨?_, List.forall_mem_singleton.mpr (collects.leaf _ _)⟩
      rcases below with ⟨-, rfl, -⟩ | ⟨name, inner, operand, rfl, rfl, -, inside⟩
      · exact List.forall_mem_nil _
      · obtain ⟨fit, -⟩ := List.forall_mem_append.mp fit
        refine List.forall_mem_singleton.mpr
          (collects.more inner _ _ (List.sublist_append_left _ _) ?_)
        rcases parses.name_of_builds inside with rfl | known
        · rw [← parses.isFor.start] at inside
          exact ih inner.length (by simp [← length]) fit inside rfl
        · exact parses.result_of_name collects step knows fit known inside
    split at ran
    · exact collects.goal tokens _ node all ran
    · have passes : Yields (Result tokens) (Result tokens) first := .next
      exact passes.of_run all ran

/-- It is so of what is parsed and of the tokens that were taken from the text for it, of which
there are no more of any sort than a tape tells. -/
theorem Parses.result_of_tapes {source : String} (Good : Tape → Prop)
    (start : Good { source := .ofString source })
    (next : ∀ (tape rest : Tape) inTypes token, Good tape →
      tape.next inTypes = .ok (token, rest) → Good rest)
    (rewind : ∀ tape, Good tape → Good tape.rewind)
    (parsed : parser.parse (.ofString source) = .ok root) :
    ∃ tape splits tokens, tape.Drawn (.ofString source) ∧ Good tape ∧
      tokens <+: Parser.taken splits tape ∧ Result tokens root := by
  obtain ⟨tape, splits, tokens, drawn, good, front, fit, built⟩ :=
    parses.builds_of_tapes Good start next rewind parsed
  exact ⟨tape, splits, tokens, drawn, good, front,
    parses.result_of_goal collects step knows fit built⟩

end Steps

/-- What every alternative keeps of all trees holds of all trees in what is parsed. -/
theorem Parses.every_of_parse (parses : Parses goal expansion grammar parser)
    (free : ∀ subtree : Subtree, subtree.isFree → Holds subtree)
    (step : ∀ alternative ∈ Grammar.rules, ∀ (tokens : List Token) (parts : Production)
      (nodes : List Node) (node : Node), (∀ token ∈ tokens, Fitting token) →
        Made (fun name tokens node => Typed name node ∧ Knows name tokens node)
            alternative.elements tokens parts nodes →
          Reduces alternative.name parts nodes node → Typed alternative.name node →
            Knows alternative.name tokens node)
    (knows : ∀ name tokens node, Knows name tokens node → Every Holds node) {source : String}
    (parsed : parser.parse (.ofString source) = .ok root) : Every Holds root := by
  obtain ⟨tokens, fit, built⟩ := parses.builds_of_parse parsed
  have collects : Collects fun _ node => Every Holds node :=
    { leaf _ := every_ofToken
      list _ _ _ all := every_listNode.mpr (every_list.mpr all)
      more _ _ _ _ every := every
      goal _ _ _ all ran := (keeps_unitGoal free).of_run all ran }
  exact parses.result_of_goal collects step knows fit built

end JavaFrontend.Java
