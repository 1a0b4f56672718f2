import JavaFrontend.Proofs.Trees.Parses

/-!
What later stages may rely on in trees. Where the syntax requires at least one of some parts, the
tree has one; array types have at least one dimension, as long as there are not more brackets than
are counted; and no array type has another as its element.
-/

namespace JavaFrontend.Java

open OperandM Piece JavaFrontend.Java.Reduction

/-! ### Trees with all that they need -/

/-- There are statements behind the labels. -/
def Tree.HasStatements : Tree .switchGroup → Prop
  | .switchGroup _ statements => statements.toList ≠ []

/-- There are statements in all of the groups but the last. -/
def OnlyLastBare (groups : List (Tree .switchGroup)) : Prop :=
  ∀ group ∈ groups.dropLast, group.HasStatements

/-- The tree has all that the syntax requires. That arrays have a dimension is asked only if there
are `few` enough brackets. -/
def Subtree.IsProper (few : Prop) : Subtree → Prop
  | ⟨.classType segments⟩ => segments.toList ≠ []
  | ⟨.arrayType element dims⟩ =>
    (few → 1 ≤ dims) ∧ ∀ inner more, element ≠ .arrayType inner more
  | ⟨.annotationPairs _ pairs _⟩ => pairs.toList ≠ []
  | ⟨.cast types _⟩ => types.toList ≠ []
  | ⟨.newArray _ lengths _⟩ => lengths.toList ≠ []
  | ⟨.newArrayOf _ dims _⟩ => few → 1 ≤ dims
  | ⟨.varDeclaration _ _ declarators⟩ => declarators.toList ≠ []
  | ⟨.switchStmt _ groups⟩ => OnlyLastBare groups.toList
  | ⟨.switchGroup labels _⟩ => labels.toList ≠ []
  | ⟨.tryStmt resources _ catches atLast⟩ =>
    resources.toList ≠ [] ∨ catches.toList ≠ [] ∨ atLast.toOption ≠ none
  | ⟨.catchClause _ types _ _⟩ => types.toList ≠ []
  | _ => True

/-- The node is no mere count or row of trees that lacks what the syntax requires of it. -/
def Node.IsProper (few : Prop) : Node → Prop
  | .dims count => few → 1 ≤ count
  | .resources resources => resources ≠ []
  | .switchGroup group => group.HasStatements
  | .switchBlock groups => OnlyLastBare groups
  | _ => True

variable {few : Prop}

theorem isProper_of_isFree (subtree : Subtree) (free : subtree.isFree) : subtree.IsProper few := by
  obtain ⟨tree⟩ := subtree
  cases tree with
  | arrayType | newArrayOf | switchStmt | ifThenElse => cases free
  | classType row | annotationPairs _ row | cast row | newArray _ row | varDeclaration _ _ row
  | switchGroup row | catchClause _ row =>
    cases row with
    | nil => cases free
    | cons => exact List.cons_ne_nil _ _
  | tryStmt resources _ catches atLast =>
    cases resources with
    | cons => exact .inl (List.cons_ne_nil _ _)
    | nil =>
      cases catches with
      | cons => exact .inr (.inl (List.cons_ne_nil _ _))
      | nil =>
        cases atLast with
        | absent => cases free
        | present => exact .inr (.inr (Option.some_ne_none _))
  | _ => trivial

/-! ### Nodes with such trees -/

/-- All trees in the node are proper, and so are the items that are no trees. -/
structure Sound (few : Prop) (node : Node) : Prop where
  trees : Every (Subtree.IsProper few) node
  items : ∀ item ∈ node.items, Node.IsProper few item

theorem sound_list {rule : String} {items : List Node} (all : ∀ item ∈ items, Sound few item) :
    Sound few (.list rule items) where
  trees := every_listNode.mpr (every_list.mpr fun item among => (all item among).trees)
  items item among := by
    have sound := (all item among).items
    cases item with
    | list => trivial
    | _ => exact sound _ (List.mem_singleton_self _)

theorem isProper_ofToken (token : Token) : Node.IsProper few (.ofToken token) := by
  unfold Node.ofToken
  split
  · trivial
  · split <;> trivial

theorem sound_ofToken (token : Token) : Sound few (.ofToken token) where
  trees := every_ofToken token
  items := by
    rw [items_ofToken]
    exact List.forall_mem_singleton.mpr (isProper_ofToken token)

/-- The sorts of nodes of which more is asked than that their trees are proper. -/
def asked : List NodeSort := [.dims, .resources, .switchGroup, .switchBlock]

/-- The names of what is more than trees. -/
def askedNames : List String :=
  ["Dims", "ResourceSpecification", "SwitchBlock", "SwitchBlockStatementGroup"]

/-- No other name stands for such, and those stand for no lists. -/
theorem lacks_asked : ∀ alternative ∈ Grammar.rules, (shapeOf alternative.name).any fun shape =>
    if code alternative.name ∈ askedNames.map code then shape.items.isEmpty
    else (shape.sorts ++ shape.items).all (· ∉ asked) := by decide +kernel

theorem isProper_of_holds {sort : NodeSort} {node : Node} (holds : sort.Holds node)
    (other : sort ∉ asked) : Node.IsProper few node := by
  cases holds with
  | dims | resources | switchGroup | switchBlock => exact absurd (by decide) other
  | _ => trivial

theorem ne_nil_of_holds {shape : Shape} {node : Node} (holds : shape.Holds node) :
    node.items ≠ [] := by
  cases holds with
  | list rule some => exact some
  | single _ holds =>
    rw [holds.items]
    exact List.cons_ne_nil _ _

theorem exists_of_rule {elements : List Element} {nodes : List Node} {name : String}
    {sorts : List NodeSort} (matched : Matches (rowOf elements) nodes)
    (member : .rule name ∈ elements) (isOf : isOf sorts name) :
    ∃ node ∈ nodes, ∃ sort ∈ sorts, sort.Holds node := by
  obtain ⟨shape, found, each⟩ := exists_of_isOf isOf
  have inside : Piece.part shape ∈ rowOf elements := by
    simpa [pieceOf, found] using mem_rowOf member
  obtain ⟨node, among, holds⟩ := exists_of_part matched inside
  exact ⟨node, among, each node holds⟩

/-- What is no token is among the items of the operands. -/
theorem mem_itemsOf {nodes : List Node} {node : Node} {sort : NodeSort} (member : node ∈ nodes)
    (holds : sort.Holds node) (solid : sort.isToken = false) : node ∈ itemsOf nodes :=
  List.mem_flatMap.mpr ⟨node, List.mem_filter.mpr ⟨member, by simp [holds.isToken, solid]⟩,
    by simp [holds.items]⟩

/-! ### Brackets -/

/-- How many opening brackets there are among the tokens. -/
def opened (tokens : List Token) : Nat := tokens.countP (·.kind == .leftBracket)

theorem opened_cons (token : Token) (tokens : List Token) :
    opened (token :: tokens) = opened tokens + if token.kind == .leftBracket then 1 else 0 :=
  List.countP_cons

theorem opened_append (front back : List Token) :
    opened (front ++ back) = opened front + opened back := List.countP_append

theorem opened_le {inner tokens : List Token} (inside : inner.Sublist tokens) :
    opened inner ≤ opened tokens := inside.countP_le

theorem pairsIn_ofToken (token : Token) : pairsIn (.ofToken token) = 0 := by
  unfold Node.ofToken
  split
  · rfl
  · split <;> rfl

/-- Whether the element is an opening bracket. -/
def isOpening : Element → Bool
  | .token kind => kind == .leftBracket
  | _ => false

/-- Dimensions are written with a bracket of their own. -/
theorem opens_of_dims : ∀ alternative ∈ Grammar.rules, code alternative.name = code "Dims" →
    1 ≤ alternative.elements.countP isOpening := by decide +kernel

/-- There are no more pairs of brackets in the operands than opening brackets among the tokens, even
without those that are operands themselves. -/
theorem load_le {elements : List Element} {tokens : List Token} {parts : Production}
    {nodes : List Node}
    (made : Made (fun _ tokens node => pairsIn node ≤ opened tokens) elements tokens parts nodes) :
    load pairsIn nodes + elements.countP isOpening ≤ opened tokens := by
  induction made with
  | nil => exact Nat.le_refl _
  | @token kind _ _ _ _ token same _ ih =>
    simp only [load_cons, pairsIn_ofToken, List.countP_cons, isOpening, opened_cons, same]
    by_cases opening : kind = .leftBracket <;> simp [opening] <;> omega
  | rule within _ ih =>
    simp only [load_cons, List.countP_cons, isOpening, opened_append, Bool.false_eq_true, if_false]
    omega
  | absent _ _ ih | never _ _ ih => simpa [isOpening] using ih
  | present _ _ insideIh restIh =>
    simp only [load_append, List.countP_cons, isOpening, opened_append, Bool.false_eq_true,
      if_false]
    omega
  | times name element occurrences _ _ _ _ ih =>
    simp only [load_cons, List.countP_cons, isOpening, opened_append, Bool.false_eq_true, if_false,
      pairsIn]
    omega

/-! ### Types with dimensions -/

/-- With fewer brackets than are counted there is no type without dimensions among those that get
more. -/
theorem merges_of_few {budget : Nat} (enough : few → budget < UInt32.size) :
    Merges (Subtree.IsProper few) budget := by
  refine fun type dims every within => every_withDims (fun some => ?_) every
  obtain ⟨less, rfl⟩ := Nat.exists_eq_succ_of_ne_zero some
  cases type with
  | arrayType element inner =>
    have own : Subtree.IsProper few ⟨Tree.arrayType element inner⟩ := every_self every
    refine ⟨fun counted => ?_, own.2⟩
    have small := enough counted
    simp only [pairs] at within
    rw [Nat.mod_eq_of_lt (by omega)]
    omega
  | primitiveType | classType =>
    exact ⟨fun _ => Nat.succ_le_succ (Nat.zero_le _), fun _ _ => nofun⟩

/-! ### Reductions that need some of their parts -/

section Reductions

variable {name : String} {nodes : List Node} {node : Node}

/-- A class type has the segments of all the types. -/
theorem segments_of_classType {first : Node} (member : first ∈ itemsOf nodes)
    {own : Row .segment} (isClass : first = .type (.classType own)) (some : own.toList ≠ [])
    (ran : (classType.run ⟨name, nodes⟩).1 = .ok node) :
    ∃ segments : List (Tree .segment), node = .type (.classType (.ofList segments)) ∧
      segments ≠ [] := by
  obtain ⟨after, ran⟩ : ∃ after, classType.run ⟨name, nodes⟩ = (.ok node, after) :=
    ⟨_, Prod.ext ran rfl⟩
  obtain ⟨types, _, typed, ran⟩ := ok_of_bind ran
  obtain ⟨items, _, taken, typed⟩ := ok_of_bind typed
  cases taken
  obtain ⟨-, each⟩ := ok_of_allAs typed
  obtain ⟨lists, _, chosen, ran⟩ := ok_of_bind ran
  obtain ⟨-, lists'⟩ := ok_of_allAs chosen
  cases ran
  obtain ⟨type, among, same⟩ := each first member
  subst isClass
  cases same
  obtain ⟨segments, inside, same⟩ := lists' _ (List.mem_map_of_mem among)
  cases same
  refine ⟨_, rfl, fun none => some ?_⟩
  exact List.flatten_eq_nil_iff.mp none _ inside

/-- A group has the labels and the statements of all its parts. -/
theorem parts_of_switchGroup {label statement : Node} {sort : NodeSort}
    (first : label ∈ itemsOf nodes) (isLabel : NodeSort.switchLabel.Holds label)
    (last : statement ∈ itemsOf nodes) (isStatement : sort.Holds statement)
    (other : sort ≠ .switchLabel) (ran : (switchGroup.run ⟨name, nodes⟩).1 = .ok node) :
    ∃ (labels : List (Tree .switchLabel)) (statements : List Stmt),
      node = .switchGroup (.switchGroup (.ofList labels) (.ofList statements)) ∧ labels ≠ [] ∧
        statements ≠ [] := by
  obtain ⟨after, ran⟩ : ∃ after, switchGroup.run ⟨name, nodes⟩ = (.ok node, after) :=
    ⟨_, Prod.ext ran rfl⟩
  obtain ⟨items, _, taken, ran⟩ := ok_of_bind ran
  cases taken
  obtain ⟨statements, _, chosen, ran⟩ := ok_of_bind ran
  obtain ⟨-, each⟩ := ok_of_allAs chosen
  cases ran
  refine ⟨_, statements, rfl, ?_, ?_⟩
  · cases isLabel with
    | switchLabel part => exact List.ne_nil_of_mem (List.mem_filterMap.mpr ⟨_, first, rfl⟩)
  · have unlabelled : switchLabel? statement = none := by
      cases isStatement with
      | switchLabel => exact absurd rfl other
      | _ => rfl
    obtain ⟨value, among, -⟩ := each statement
      (List.mem_filter.mpr ⟨last, by simp [unlabelled]⟩)
    exact List.ne_nil_of_mem among

/-- A statement that is tried stands between its resources, if there are any, and the clauses that
follow it. -/
theorem parts_of_tryStatement (ran : (tryStatement.run ⟨name, nodes⟩).1 = .ok node) :
    ∃ (word : Node) (front : List Node) (body : Node) (rest : List Node) (block : Block)
      (resources : List (Tree .resource)) (parts : List Node),
      nodes = word :: (front ++ body :: rest) ∧ word.isToken ∧ body = .block block ∧
      (front = [] ∧ resources = [] ∨ front = [.resources resources]) ∧
      node = .stmt (.tryStmt (.ofList resources) block (.ofList (parts.filterMap catchClause?))
        (.ofOption (parts.filterMap finallyBlock?).getLast?)) ∧
      ∀ item ∈ itemsOf rest, isTryPart item ∧ item ∈ parts := by
  obtain ⟨after, ran⟩ : ∃ after, tryStatement.run ⟨name, nodes⟩ = (.ok node, after) :=
    ⟨_, Prod.ext ran rfl⟩
  obtain ⟨_, _, opened, ran⟩ := ok_of_bind ran
  obtain ⟨word, others, rfl, isWord, rfl⟩ := ok_of_nextAs opened
  obtain ⟨resources, left, tried, ran⟩ := ok_of_bind ran
  obtain ⟨front, own, rfl, rfl, offered⟩ : ∃ front own, others = front ++ own ∧
      left = ⟨name, own⟩ ∧ (front = [] ∧ resources.getD [] = [] ∨
        front = [.resources (resources.getD [])]) := by
    cases resources with
    | none =>
      have same := tried.symm.trans (run_take_none (ok_of_take_none tried))
      exact ⟨[], others, rfl, (Prod.ext_iff.mp same).2, .inl ⟨rfl, rfl⟩⟩
    | some listed =>
      obtain ⟨first, own, rfl, isListed, rfl⟩ := ok_of_take tried
      cases first <;> cases isListed
      exact ⟨_, own, rfl, rfl, .inr rfl⟩
  obtain ⟨block, _, blocked, ran⟩ := ok_of_bind ran
  obtain ⟨body, rest, rfl, isBlock, rfl⟩ := ok_of_nextAs blocked
  obtain ⟨items, _, taken, ran⟩ := ok_of_bind ran
  cases taken
  obtain ⟨parts, _, chosen, ran⟩ := ok_of_bind ran
  obtain ⟨-, each⟩ := ok_of_allAs chosen
  cases ran
  refine ⟨word, front, body, rest, block, _, parts, rfl, ?_, ?_, offered, rfl, ?_⟩
  · cases word with
    | token => rfl
    | _ => cases isWord
  · cases body <;> cases isBlock
    rfl
  · intro item among
    obtain ⟨part, member, same⟩ := each item among
    obtain ⟨rfl, accepted⟩ := Option.guard_eq_some_iff.mp same
    exact ⟨by simpa using accepted, member⟩

/-- There is something to close, to catch or to do at last where one of the parts is such. -/
theorem isProper_of_tryStatement {clause : Node} {sort : NodeSort} (member : clause ∈ nodes)
    (holds : sort.Holds clause) (among : sort ∈ [.resources, .catchClause, .finallyBlock])
    (proper : Node.IsProper few clause) (ran : (tryStatement.run ⟨name, nodes⟩).1 = .ok node) :
    ∃ resources body catches atLast, node = .stmt (.tryStmt resources body catches atLast) ∧
      Subtree.IsProper few ⟨Tree.tryStmt resources body catches atLast⟩ := by
  obtain ⟨word, front, body, rest, block, resources, parts, rfl, isWord, rfl, offered, rfl, each⟩ :=
    parts_of_tryStatement ran
  refine ⟨_, _, _, _, rfl, ?_⟩
  simp only [Subtree.IsProper, Row.toList_ofList, Optional.toOption_ofOption]
  have solid : sort.isToken = false := by
    revert among
    cases sort <;> simp [NodeSort.isToken]
  -- The clause is no token and no block, so it is among the resources or behind the block.
  have placed : clause ∈ front ∨ clause ∈ rest := by
    rcases List.mem_cons.mp member with rfl | member
    · rw [holds.isToken, solid] at isWord
      cases isWord
    rcases List.mem_append.mp member with inFront | member
    · exact .inl inFront
    rcases List.mem_cons.mp member with rfl | inRest
    · cases holds
      simp at among
    · exact .inr inRest
  rcases placed with inFront | inRest
  · rcases offered with ⟨rfl, -⟩ | rfl
    · cases inFront
    · rw [List.mem_singleton.mp inFront] at proper
      exact .inl proper
  · obtain ⟨accepted, inside⟩ := each clause (mem_itemsOf inRest holds solid)
    cases holds with
    | catchClause part =>
      exact .inr (.inl (List.ne_nil_of_mem (List.mem_filterMap.mpr ⟨_, inside, rfl⟩)))
    | finallyBlock part =>
      refine .inr (.inr fun none => ?_)
      have listed : part ∈ parts.filterMap finallyBlock? := List.mem_filterMap.mpr ⟨_, inside, rfl⟩
      rw [List.getLast?_eq_none_iff.mp none] at listed
      cases listed
    | resources => cases accepted
    | _ => simp at among

/-! ### Reductions that pass on what their operands need -/

theorem declarators_of_varDeclaration : Yields (fun node => node.items ≠ []) (fun declared =>
    ∃ modifiers type declarators, declared = .varDeclaration modifiers type declarators ∧
      declarators.toList ≠ []) varDeclaration :=
  .bind .repeats fun _ _ => .bind .asks fun _ _ => .bind .next fun _ some =>
    .bind (.some_of_all some) fun _ some => .pure ⟨_, _, _, rfl, by simpa using some⟩

theorem types_of_catchClause : Yields (fun node => node.items ≠ []) (fun node =>
    ∃ modifiers types name body, node = .catchClause (.catchClause modifiers types name body) ∧
      types.toList ≠ []) catchClause :=
  .bind .asks fun _ _ => .bind .asks fun _ _ => .bind .repeats fun _ _ => .bind .next fun _ some =>
    .bind (.some_of_all some) fun _ some => .bind .asks fun _ _ => .bind .asks fun _ _ =>
      .bind .asks fun _ _ => .pure ⟨_, _, _, _, rfl, by simpa using some⟩

/-- The groups of a switch block are as they are in it. -/
theorem onlyLastBare_of_block {node : Node} {groups : List (Tree .switchGroup)}
    (same : (match node with | .switchBlock groups => some groups | _ => none) = some groups)
    (proper : ∀ item ∈ node.items, Node.IsProper few item) : OnlyLastBare groups := by
  cases node <;> cases same
  exact proper _ (List.mem_singleton_self _)

theorem groups_of_switchStatement :
    Yields (fun node => ∀ item ∈ node.items, Node.IsProper few item) (fun node =>
      ∃ selector groups, node = .stmt (.switchStmt selector groups) ∧ OnlyLastBare groups.toList)
      switchStatement := by
  have tested : Yields (fun node => ∀ item ∈ node.items, Node.IsProper few item)
      (fun _ => True) parenthesized :=
    .bind .asks fun _ _ => .bind .asks fun _ _ => .bind .asks fun _ _ => .pure trivial
  exact .bind .asks fun _ _ => .bind tested fun _ _ => .bind (.nextAs _ onlyLastBare_of_block)
    fun _ bare =>
    .pure ⟨_, _, rfl, by simpa using bare⟩

theorem groups_of_switchBlock :
    Yields (fun node => ∀ item ∈ node.items, Node.IsProper few item) (Node.IsProper few)
      switchBlock := by
  refine .bind .items fun nodes proper => ?_
  have kept : ∀ node ∈ nodes, ∀ value, Option.guard isSwitchPart node = some value →
      Node.IsProper few value := by
    intro node among value same
    obtain ⟨rfl, -⟩ := Option.guard_eq_some_iff.mp same
    exact proper node among
  refine .bind (.allAs _ kept) fun parts proper => ?_
  have all : ∀ group ∈ parts.filterMap switchGroup?, group.HasStatements := by
    intro group among
    obtain ⟨part, inside, same⟩ := List.mem_filterMap.mp among
    cases part <;> cases same
    exact proper _ inside
  dsimp only
  split
  · exact .pure fun group among => all group (List.mem_of_mem_dropLast among)
  · refine .pure (?_ : OnlyLastBare (_ ++ [_]))
    rw [OnlyLastBare, List.dropLast_concat]
    exact all

theorem lengths_of_arrayCreation :
    Yields (fun node => node.items ≠ [] ∧ ∀ item ∈ node.items, Node.IsProper few item)
      (fun node => ∃ tree : Expr, node = .expr tree ∧ Subtree.IsProper few ⟨tree⟩)
      arrayCreation := by
  refine .bind .asks fun _ _ => .bind .asks fun element _ => .bind .next fun node given => ?_
  have byLengths : Yields (fun node => node.items ≠ [] ∧ ∀ item ∈ node.items,
      Node.IsProper few item)
      (fun node => ∃ tree : Expr, node = .expr tree ∧ Subtree.IsProper few ⟨tree⟩) (do
        let lengths ← exprsOf node
        return Node.expr (.newArray element lengths (← dims))) := by
    have counted {Given : Node → Prop} : Yields Given (fun _ => True) dims :=
      .bind .tries fun _ _ => .pure trivial
    refine .bind (.some_of_all given.1) fun lengths some => .bind counted fun _ _ =>
      .pure ⟨_, rfl, ?_⟩
    simpa [Subtree.IsProper] using some
  cases node with
  | dims count =>
    refine .bind .asks fun values _ => ?_
    cases values with
    | arrayInitializer => exact .pure ⟨_, rfl, given.2 _ (List.mem_singleton_self _)⟩
    | _ => exact .mismatch _ _
  | _ => exact byLengths

theorem resources_of_resources {resource : Node} (member : resource ∈ itemsOf nodes)
    (ran : (resources.run ⟨name, nodes⟩).1 = .ok node) : Node.IsProper few node := by
  obtain ⟨after, ran⟩ : ∃ after, resources.run ⟨name, nodes⟩ = (.ok node, after) :=
    ⟨_, Prod.ext ran rfl⟩
  obtain ⟨items, _, taken, ran⟩ := ok_of_bind ran
  cases taken
  obtain ⟨listed, _, chosen, ran⟩ := ok_of_bind ran
  obtain ⟨-, each⟩ := ok_of_allAs chosen
  cases ran
  obtain ⟨value, among, -⟩ := each resource member
  exact List.ne_nil_of_mem among

/-- One more pair of brackets is counted. -/
theorem spends_arrayDims {Given : Node → Prop} {budget : Nat} : Spends pairsIn Given budget
    (fun node _ => ∃ count ≤ budget, node = .dims ((count + 1) % UInt32.size)) arrayDims :=
  .bind spends_dims fun count _ within => .pure ⟨count, by omega, rfl⟩

/-! ### Reductions of guarded names -/

/-- Names with parts of which they need one. -/
def needs : List (String × List String) := [
  ("ClassType", ["SimpleClassType"]), ("SwitchBlockStatementGroup", ["SwitchLabel"]),
  ("SwitchBlockStatementGroup", ["BlockStatement"]),
  ("TryStatement", ["CatchClause", "Finally", "ResourceSpecification"]),
  ("ResourceSpecification", ["Resource"])]

theorem exists_needed : ∀ alternative ∈ Grammar.rules, ∀ entry ∈ needs,
    code alternative.name = code entry.1 → ∃ name ∈ entry.2, .rule name ∈ alternative.elements := by
  decide +kernel

/-- What is known of the operands of a rule with the elements. -/
structure Supplied (few : Prop) (elements : List Element) (budget : Nat) (nodes : List Node) :
    Prop where
  sound : ∀ node ∈ nodes, Sound few node
  filled : ∀ node ∈ nodes, node.items ≠ []
  matched : Matches (rowOf elements) nodes
  within : load pairsIn nodes + elements.countP isOpening ≤ budget
  enough : few → budget < UInt32.size

namespace Supplied

variable {alternative : Alternative} {budget : Nat}
  (supplied : Supplied few alternative.elements budget nodes)
include supplied

/-- One of the parts that the name needs is among the operands. -/
theorem needed (member : alternative ∈ Grammar.rules) (names : List String)
    (needed : (alternative.name, names) ∈ needs) (sorts : List NodeSort)
    (shapes : names.all (isOf sorts)) : ∃ node ∈ nodes, ∃ sort ∈ sorts, sort.Holds node := by
  obtain ⟨name, among, inside⟩ := exists_needed alternative member _ needed rfl
  exact exists_of_rule supplied.matched inside (List.all_eq_true.mp shapes name among)

theorem trees : ∀ node ∈ nodes, Every (Subtree.IsProper few) node := fun node among =>
  (supplied.sound node among).trees

theorem items : ∀ node ∈ nodes, ∀ item ∈ node.items, Node.IsProper few item := fun node among =>
  (supplied.sound node among).items

theorem merges : Merges (Subtree.IsProper few) budget := merges_of_few supplied.enough

theorem load_le : load pairsIn nodes ≤ budget :=
  Nat.le_trans (Nat.le_add_right _ _) supplied.within

theorem classType (member : alternative ∈ Grammar.rules) (same : alternative.name = "ClassType")
    (ran : (Reduction.classType.run ⟨name, nodes⟩).1 = .ok node) :
    Every (Subtree.IsProper few) node := by
  obtain ⟨first, among, sort, listed, holds⟩ := supplied.needed member ["SimpleClassType"]
    (by simp [needs, same]) [.classType] (by decide)
  cases List.mem_singleton.mp listed
  obtain ⟨own, isClass⟩ : ∃ own, first = .type (.classType own) := by
    cases holds
    exact ⟨_, rfl⟩
  have proper : Every (Subtree.IsProper few) (Tree.classType own) := by
    have every := supplied.trees first among
    rwa [isClass] at every
  obtain ⟨segments, again, some⟩ := segments_of_classType (mem_itemsOf among holds rfl) isClass
    (every_self proper) ran
  obtain ⟨_, isNode, parts⟩ := parts_classType.of_run supplied.trees ran
  rw [again] at isNode ⊢
  cases isNode
  exact every_node rfl (by simpa [Subtree.IsProper] using some) parts

theorem switchGroup (member : alternative ∈ Grammar.rules)
    (same : alternative.name = "SwitchBlockStatementGroup")
    (ran : (Reduction.switchGroup.run ⟨name, nodes⟩).1 = .ok node) :
    Every (Subtree.IsProper few) node ∧ Node.IsProper few node := by
  obtain ⟨label, first, _, listed, isLabel⟩ := supplied.needed member ["SwitchLabel"]
    (by simp [needs, same]) [.switchLabel] (by decide)
  cases List.mem_singleton.mp listed
  obtain ⟨statement, last, sort, among, isStatement⟩ := supplied.needed member
    ["BlockStatement"] (by simp [needs, same]) statements (by decide)
  have solid : ∀ sort ∈ statements, sort.isToken = false ∧ sort ≠ .switchLabel := by decide
  obtain ⟨word, other⟩ := solid sort among
  obtain ⟨labels, statements, again, labelled, filled⟩ :=
    parts_of_switchGroup (mem_itemsOf first isLabel rfl) isLabel
      (mem_itemsOf last isStatement word) isStatement other ran
  obtain ⟨_, _, isNode, parts⟩ :=
    (parts_switchGroup isProper_of_isFree).of_run supplied.trees ran
  rw [again] at isNode ⊢
  cases isNode
  exact ⟨every_node rfl (by simpa [Subtree.IsProper] using labelled) parts,
    by simpa [Node.IsProper, Tree.HasStatements] using filled⟩

theorem tryStatement (member : alternative ∈ Grammar.rules)
    (same : alternative.name = "TryStatement")
    (ran : (Reduction.tryStatement.run ⟨name, nodes⟩).1 = .ok node) :
    Every (Subtree.IsProper few) node := by
  obtain ⟨clause, inside, sort, among, holds⟩ := supplied.needed member
    ["CatchClause", "Finally", "ResourceSpecification"] (by simp [needs, same])
    [.resources, .catchClause, .finallyBlock] (by decide)
  have proper : Node.IsProper few clause :=
    supplied.items clause inside clause (by simp [holds.items])
  obtain ⟨_, _, _, _, again, own⟩ := isProper_of_tryStatement inside holds among proper ran
  obtain ⟨_, _, _, _, isNode, parts⟩ := parts_tryStatement.of_run supplied.trees ran
  rw [again] at isNode ⊢
  cases isNode
  exact every_node rfl own parts

theorem resources (member : alternative ∈ Grammar.rules)
    (same : alternative.name = "ResourceSpecification")
    (ran : (Reduction.resources.run ⟨name, nodes⟩).1 = .ok node) : Node.IsProper few node := by
  obtain ⟨resource, inside, _, listed, holds⟩ := supplied.needed member ["Resource"]
    (by simp [needs, same]) [.resource] (by decide)
  cases List.mem_singleton.mp listed
  exact resources_of_resources (mem_itemsOf inside holds rfl) ran

/-- What the reductions of the guarded names make is proper, too. -/
theorem every_of_guarded (member : alternative ∈ Grammar.rules) :
    ∀ name ∈ guarded, alternative.name = name → ∀ reduction,
      table.lookup name = some reduction → (reduction.run ⟨name, nodes⟩).1 = .ok node →
        Every (Subtree.IsProper few) node := by
  have free : ∀ subtree : Subtree, subtree.isFree → subtree.IsProper few := isProper_of_isFree
  have trees := supplied.trees
  have both : ∀ node ∈ nodes, Every (Subtree.IsProper few) node ∧ node.items ≠ [] :=
    fun node among => ⟨trees node among, supplied.filled node among⟩
  have declares : Yields (fun node => Every (Subtree.IsProper few) node ∧ node.items ≠ [])
      (Every (Subtree.IsProper few)) varDeclaration := by
    refine ((parts_varDeclaration free).and declarators_of_varDeclaration).mono ?_
    rintro _ ⟨⟨_, _, _, rfl, parts⟩, _, _, _, same, filled⟩
    cases same
    exact every_tree filled parts
  have condition {rule : String} (ran : (ifStatement.run ⟨rule, nodes⟩).1 = .ok node) :
      Every (Subtree.IsProper few) node := by
    obtain ⟨_, rfl, condition, parts⟩ := (parts_ifStatement free).of_run trees ran
    cases condition <;> exact every_node rfl trivial parts
  simp only [guarded, List.forall_mem_cons]
  refine ⟨?_, ?_, ?_, ?_, ?_, ?_, ?_, ?_, ?_, ?_, ?_, ?_, ?_, ?_, ?_, List.forall_mem_nil _⟩
  all_goals
    rintro same _ ⟨⟩ ran
  · exact supplied.classType member same ran
  · obtain ⟨_, every, -⟩ := (spends_arrayType supplied.merges).of_run trees supplied.load_le ran
    exact every
  · exact (keeps_fieldDeclaration free declares).of_run both ran
  · obtain ⟨_, every⟩ :=
      (spends_methodDeclaration free supplied.merges).of_run trees supplied.load_le ran
    exact every
  · obtain ⟨_, every⟩ :=
      (spends_formalParameter free supplied.merges).of_run trees supplied.load_le ran
    exact every
  · exact (keeps_localVariables declares).of_run both ran
  · exact condition ran
  · exact condition ran
  · exact condition ran
  · obtain ⟨_, _, rfl, parts⟩ := (parts_switchStatement free).of_run trees ran
    obtain ⟨_, _, again, bare⟩ := groups_of_switchStatement.of_run supplied.items ran
    cases again
    exact every_node rfl bare parts
  · exact (supplied.switchGroup member same ran).1
  · exact supplied.tryStatement member same ran
  · obtain ⟨_, _, _, _, rfl, parts⟩ := (parts_catchClause free).of_run trees ran
    obtain ⟨_, _, _, _, again, filled⟩ := types_of_catchClause.of_run supplied.filled ran
    cases again
    exact every_node rfl filled parts
  · obtain ⟨_, every⟩ :=
      (spends_classLiteral free supplied.merges).of_run trees supplied.load_le ran
    exact every
  · obtain ⟨_, rfl, -, parts⟩ := (parts_arrayCreation free).of_run trees ran
    obtain ⟨_, again, own⟩ := lengths_of_arrayCreation.of_run
      (fun node among => ⟨supplied.filled node among, supplied.items node among⟩) ran
    cases again
    exact every_node rfl own parts

/-- Dimensions count the brackets and are as many as there are, if these are few. -/
theorem dims (member : alternative ∈ Grammar.rules) (same : alternative.name = "Dims")
    (ran : (arrayDims.run ⟨name, nodes⟩).1 = .ok node) :
    Node.IsProper few node ∧ pairsIn node ≤ budget := by
  have opens := opens_of_dims alternative member (by rw [same])
  have within := supplied.within
  obtain ⟨_, count, less, rfl⟩ := spends_arrayDims.of_run supplied.trees (Nat.le_refl _) ran
  refine ⟨fun counted => ?_, Nat.le_trans (Nat.mod_le _ _) (by omega)⟩
  have small := supplied.enough counted
  rw [Nat.mod_eq_of_lt (by omega)]
  omega

theorem isProper_of_asked (member : alternative ∈ Grammar.rules) :
    ∀ name ∈ askedNames, alternative.name = name → ∀ reduction,
      table.lookup name = some reduction → (reduction.run ⟨name, nodes⟩).1 = .ok node →
        Node.IsProper few node := by
  simp only [askedNames, List.forall_mem_cons]
  refine ⟨?_, ?_, ?_, ?_, List.forall_mem_nil _⟩
  all_goals
    rintro same _ ⟨⟩ ran
  · exact (supplied.dims member same ran).1
  · exact supplied.resources member same ran
  · exact groups_of_switchBlock.of_run supplied.items ran
  · exact (supplied.switchGroup member same ran).2

end Supplied

end Reductions

/-! ### Brackets in what is made -/

/-- The sorts of nodes that may end with pairs of brackets. -/
def bracketed : List NodeSort := [.arrayType, .dims, .declarator, .bareDeclarator]

theorem pairsIn_of_holds {shape : Shape} {node : Node} (holds : shape.Holds node)
    (other : ∀ sort ∈ shape.sorts, sort ∉ bracketed) : pairsIn node = 0 := by
  cases holds with
  | list => rfl
  | single among holds =>
    have other := other _ among
    cases holds with
    | arrayType | dims | declarator | bareDeclarator => exact absurd (by decide) other
    | _ => rfl

/-- The names with reductions whose nodes may end so, other than that of brackets alone. -/
def bracketedNames : List String := [
  "ArrayType", "AdditionalBound", "Wildcard", "VariableDeclaratorList", "VariableDeclarator",
  "VariableDeclaratorId", "Result", "CatchType"]

theorem lacks_bracketed : ∀ name ∈ table.map (·.1), code name = code "Dims" ∨
    code name ∈ bracketedNames.map code ∨
      (shapeOf name).any fun shape => shape.sorts.all (· ∉ bracketed) := by decide +kernel

theorem pairsIn_le {nodes : List Node} {node : Node} : ∀ name ∈ bracketedNames, ∀ reduction,
    table.lookup name = some reduction → (reduction.run ⟨name, nodes⟩).1 = .ok node →
      pairsIn node ≤ load pairsIn nodes := by
  have given : ∀ node ∈ nodes, Every (fun _ => True) node := fun _ _ _ _ _ _ => trivial
  have spent {reduction : OperandM Node} {name : String}
      (spends : Spends pairsIn (Every fun _ => True) (load pairsIn nodes)
        (fun node _ => pairsIn node ≤ load pairsIn nodes) reduction)
      (ran : (reduction.run ⟨name, nodes⟩).1 = .ok node) : pairsIn node ≤ load pairsIn nodes := by
    obtain ⟨_, within⟩ := spends.of_run given (Nat.le_refl _) ran
    exact within
  have listed {name : String} (ran : (list.run ⟨name, nodes⟩).1 = .ok node) :
      pairsIn node ≤ load pairsIn nodes := by
    cases ran
    exact Nat.zero_le _
  simp only [bracketedNames, List.forall_mem_cons]
  refine ⟨?_, ?_, ?_, ?_, ?_, ?_, ?_, ?_, List.forall_mem_nil _⟩
  all_goals
    rintro _ ⟨⟩ ran
  · refine spent ((spends_arrayType fun type dims every _ => ?_).mono fun _ _ => And.right) ran
    exact every_withDims (fun _ => trivial) every
  · exact spent (.skip .asks .nextAs fun _ _ => spends_type.bind fun type rest ⟨_, within⟩ =>
      .pure (Nat.le_trans (Nat.le_add_right _ _) within)) ran
  · have bare : Yields (fun _ => True) (fun node => pairsIn node = 0) wildcard :=
      .bind (.any _) fun _ _ => .bind (.any _) fun _ _ =>
        .ite (.bind (.any _) fun _ _ => .pure rfl) (.bind (.any _) fun _ _ =>
          .ite (.bind (.any _) fun _ _ => .pure rfl) (.pure rfl))
    rw [bare.of_run (fun _ _ => trivial) ran]
    exact Nat.zero_le _
  · exact listed ran
  · have weighs {node : Node} {part : Tree .declarator} (same : declarator? node = some part)
        (_ : Every (fun _ => True) node) : True ∧ pairsIn (.declarator part) ≤ pairsIn node := by
      cases node <;> cases same
      exact ⟨trivial, Nat.le_refl _⟩
    refine spent (.bind (.nextAs weighs) fun declarator rest ⟨_, within⟩ => ?_) ran
    cases declarator
    exact .skip .asks .nextAs fun _ _ => .skip .asks .nextAs fun _ _ =>
      .pure (Nat.le_trans (Nat.le_add_right _ _) within)
  · exact spent (.skip .asks .nextAs fun _ _ => spends_dims.bind fun dims rest within =>
      .pure (Nat.le_trans (Nat.le_add_right _ _) within)) ran
  · have within : ∀ node ∈ nodes, pairsIn node ≤ load pairsIn nodes := fun node among =>
      le_load among
    exact Yields.next.of_run within ran
  · exact listed ran

/-! ### All rules -/

/-- What is known of what is built of the tokens, if there are no more brackets among them than in
all. -/
def Counted (total : Nat) (tokens : List Token) (node : Node) : Prop :=
  opened tokens ≤ total → Sound (total < UInt32.size) node ∧ pairsIn node ≤ opened tokens

section Rules

variable {alternative : Alternative} {tokens : List Token} {parts : Production}
  {nodes : List Node} {node : Node} {total : Nat}

theorem supplied_of_made (member : alternative ∈ Grammar.rules)
    (fit : ∀ token ∈ tokens, Fitting token)
    (made : Made (fun name tokens node => Typed name node ∧ Counted total tokens node)
      alternative.elements tokens parts nodes) (within : opened tokens ≤ total) :
    Supplied (total < UInt32.size) alternative.elements (opened tokens) nodes := by
  obtain ⟨-, known, plain⟩ := Grammar.shapeOf_of_mem_rules member
  have matched : Matches (rowOf alternative.elements) nodes :=
    (made.mono fun _ _ _ _ both => both.1).matches known plain fit
  have counted := made.mono fun _ _ _ inside both =>
    both.2 (Nat.le_trans (opened_le inside) within)
  refine ⟨?_, fun node among => ?_, matched, ?_, fun few => Nat.lt_of_le_of_lt within few⟩
  · exact counted.fine sound_ofToken (fun rule items => sound_list) fun _ _ _ _ both => both.1
  · obtain ⟨shape, -, holds⟩ := matched.shape node among
    exact ne_nil_of_holds holds
  · exact load_le (counted.mono fun _ _ _ _ both => both.2)

theorem counted_of_made (member : alternative ∈ Grammar.rules)
    (fit : ∀ token ∈ tokens, Fitting token)
    (made : Made (fun name tokens node => Typed name node ∧ Counted total tokens node)
      alternative.elements tokens parts nodes)
    (reduces : Reduces alternative.name parts nodes node) (typed : Typed alternative.name node) :
    Counted total tokens node := by
  intro within
  have supplied := supplied_of_made member fit made within
  rcases reduces.cases with ⟨rfl, -⟩ | ⟨reduction, found, ran⟩
  · have light := supplied.load_le
    rw [load_cons] at light
    exact ⟨supplied.sound node (List.mem_singleton_self _),
      Nat.le_trans (Nat.le_add_right _ _) light⟩
  obtain ⟨front, back, split, -⟩ := List.lookup_eq_some_iff.mp found
  have listed : alternative.name ∈ table.map (·.1) := by simp [split]
  refine ⟨⟨?_, ?_⟩, ?_⟩
  · by_cases among : alternative.name ∈ guarded
    · exact supplied.every_of_guarded member _ among rfl reduction found ran
    · exact every_of_run (keeps_of_lookup isProper_of_isFree found among)
        (every_list.mpr supplied.trees) ran
  · obtain ⟨shape, known, kept⟩ := (Option.any_eq_true _ _).mp (lacks_asked alternative member)
    have holds := typed shape known
    split at kept
    · next among =>
      obtain ⟨sort, -, holds⟩ := sort_of_flat (List.isEmpty_iff.mp kept) holds
      rw [holds.items]
      exact List.forall_mem_singleton.mpr
        (supplied.isProper_of_asked member _ (mem_map_code_iff.mp among) rfl reduction found ran)
    · intro item inside
      obtain ⟨sort, among, holds⟩ := holds.items item inside
      exact isProper_of_holds holds (by simpa using List.all_eq_true.mp kept sort among)
  · rcases lacks_bracketed _ listed with same | among | none
    · have same := code_inj same
      rw [same] at found
      cases found
      exact (supplied.dims member same ran).2
    · exact Nat.le_trans (pairsIn_le _ (mem_map_code_iff.mp among) reduction found ran)
        supplied.load_le
    · obtain ⟨shape, known, other⟩ := (Option.any_eq_true _ _).mp none
      rw [pairsIn_of_holds (typed shape known) fun sort among => by
        simpa using List.all_eq_true.mp other sort among]
      exact Nat.zero_le _

end Rules

end JavaFrontend.Java
