import JavaFrontend.Proofs.Grammar.Meaning
import JavaFrontend.Proofs.Java.Sieve

/-!
Source files of nothing but classes and blocks, one inside the other. Few alternatives of the
grammar are for their tokens, so such a file is parsed into the tree that it shows
(`parse_of_nest`).
-/

namespace JavaFrontend.Java

open OperandM JavaFrontend.Java.Reduction

/-! ### Classes and blocks -/

/-- Classes and blocks behind one another, by their tokens and what is in them. -/
inductive Nest where
  | nil
  | type (word name left : Token) (inner : Nest) (right : Token) (rest : Nest)
  | block (left : Token) (inner : Nest) (right : Token) (rest : Nest)

namespace Nest

def tokens : Nest → List Token
  | .nil => []
  | .type word name left inner right rest =>
    word :: name :: left :: (inner.tokens ++ right :: rest.tokens)
  | .block left inner right rest => left :: (inner.tokens ++ right :: rest.tokens)

/-- Every token is of the kind that it stands for. -/
def Proper : Nest → Prop
  | .nil => True
  | .type word name left inner right rest =>
    word.kind = .classWord ∧ name.kind = .identifier ∧ left.kind = .leftBrace ∧ inner.Proper ∧
      right.kind = .rightBrace ∧ rest.Proper
  | .block left inner right rest =>
    left.kind = .leftBrace ∧ inner.Proper ∧ right.kind = .rightBrace ∧ rest.Proper

/-- What classes and blocks are made into. -/
def nodes : Nest → List Node
  | .nil => []
  | .type _ name left inner _ rest =>
    .typeDeclaration (.classDeclaration .nil ⟨name.text, name.position⟩ .nil .absent .nil
      (.classBody (inner.nodes.filterMap Node.member?) left.position)) :: rest.nodes
  | .block left inner _ rest =>
    .block (.block (inner.nodes.filterMap Node.stmt?) left.position) :: rest.nodes

def append : Nest → Nest → Nest
  | .nil, others => others
  | .type word name left inner right rest, others =>
    .type word name left inner right (rest.append others)
  | .block left inner right rest, others => .block left inner right (rest.append others)

variable {nest other : Nest}

@[simp] theorem tokens_append (nest other : Nest) :
    (nest.append other).tokens = nest.tokens ++ other.tokens := by
  induction nest with
  | nil => rfl
  | type _ _ _ _ _ _ _ ih | block _ _ _ _ _ ih => simp [append, tokens, ih]

@[simp] theorem nodes_append (nest other : Nest) :
    (nest.append other).nodes = nest.nodes ++ other.nodes := by
  induction nest with
  | nil => rfl
  | type _ _ _ _ _ _ _ ih | block _ _ _ _ _ ih => simp [append, nodes, ih]

theorem Proper.append (proper : nest.Proper) (others : other.Proper) :
    (nest.append other).Proper := by
  induction nest with
  | nil => exact others
  | type _ _ _ _ _ _ _ ih | block _ _ _ _ _ ih =>
    simp only [Nest.append, Proper] at proper ⊢
    simp_all

/-- The kinds of the tokens of classes and blocks. -/
def kinds : List Kind := [.classWord, .identifier, .leftBrace, .rightBrace]

theorem kinds_of_proper (nest : Nest) (proper : nest.Proper) :
    ∀ token ∈ nest.tokens, token.kind ∈ kinds := by
  induction nest with
  | nil => exact fun _ none => absurd none List.not_mem_nil
  | type _ _ _ _ _ _ innerIh restIh =>
    obtain ⟨isWord, isName, isLeft, inner, isRight, rest⟩ := proper
    simp only [tokens, List.forall_mem_cons, List.forall_mem_append]
    simp only [kinds, isWord, isName, isLeft, isRight]
    exact ⟨by decide, by decide, by decide, innerIh inner, by decide, restIh rest⟩
  | block _ _ _ _ innerIh restIh =>
    obtain ⟨isLeft, inner, isRight, rest⟩ := proper
    simp only [tokens, List.forall_mem_cons, List.forall_mem_append]
    simp only [kinds, isLeft, isRight]
    exact ⟨by decide, innerIh inner, by decide, restIh rest⟩

/-- Neither a class nor a block begins with the token. -/
def Closes (token : Token) : Prop := token.kind ≠ .classWord ∧ token.kind ≠ .leftBrace

/-- The tokens show where classes and blocks end. -/
theorem eq_of_tokens {last last' : Token} {more more' : List Token} (proper : nest.Proper)
    (proper' : other.Proper) (closes : Closes last) (closes' : Closes last')
    (same : nest.tokens ++ last :: more = other.tokens ++ last' :: more') :
    nest = other ∧ last :: more = last' :: more' := by
  have closing {token : Token} (kind : token.kind = .rightBrace) : Closes token := by
    simp [Closes, kind]
  induction nest generalizing other last last' more more' with
  | nil =>
    cases other with
    | nil => exact ⟨rfl, same⟩
    | type word =>
      cases same
      exact absurd proper'.1 closes.1
    | block left =>
      cases same
      exact absurd proper'.1 closes.2
  | type word name left inner right rest innerIh restIh =>
    obtain ⟨isWord, -, -, innerProper, isRight, restProper⟩ := proper
    cases other with
    | nil =>
      cases same
      exact absurd isWord closes'.1
    | type word' name' left' inner' right' rest' =>
      obtain ⟨-, -, -, innerProper', isRight', restProper'⟩ := proper'
      simp only [tokens, List.cons_append, List.append_assoc, List.cons.injEq] at same
      obtain ⟨rfl, rfl, rfl, same⟩ := same
      obtain ⟨rfl, behind⟩ :=
        innerIh innerProper innerProper' (closing isRight) (closing isRight') same
      obtain ⟨rfl, rest⟩ := List.cons.inj behind
      obtain ⟨rfl, ended⟩ := restIh restProper restProper' closes closes' rest
      exact ⟨rfl, ended⟩
    | block left' =>
      obtain rfl := (List.cons.inj same).1
      cases isWord.symm.trans proper'.1
  | block left inner right rest innerIh restIh =>
    obtain ⟨isLeft, innerProper, isRight, restProper⟩ := proper
    cases other with
    | nil =>
      cases same
      exact absurd isLeft closes'.2
    | type word' =>
      obtain rfl := (List.cons.inj same).1
      cases isLeft.symm.trans proper'.1
    | block left' inner' right' rest' =>
      obtain ⟨-, innerProper', isRight', restProper'⟩ := proper'
      simp only [tokens, List.cons_append, List.append_assoc, List.cons.injEq] at same
      obtain ⟨rfl, same⟩ := same
      obtain ⟨rfl, behind⟩ :=
        innerIh innerProper innerProper' (closing isRight) (closing isRight') same
      obtain ⟨rfl, rest⟩ := List.cons.inj behind
      obtain ⟨rfl, ended⟩ := restIh restProper restProper' closes closes' rest
      exact ⟨rfl, ended⟩

end Nest

/-! ### What is left of the grammar -/

open Java.Grammar in
/-- The alternatives for the tokens of classes and blocks. -/
def nestAlternatives : List Alternative :=
  define "CompilationUnit" [["TypeDeclaration", many ["TypeDeclaration"]]] ++
  define "NormalClassDeclaration" [[token .classWord, token .identifier, "ClassBody"]] ++
  define "ClassBody" [[token .leftBrace, many ["ClassBodyDeclaration"], token .rightBrace]] ++
  define "Block" [[token .leftBrace, many ["BlockStatement"], token .rightBrace]] ++
  define "TypeDeclaration" [["ClassDeclaration"]] ++
  define "ClassDeclaration" [["NormalClassDeclaration"]] ++
  define "ClassBodyDeclaration" [["ClassMemberDeclaration"], ["InstanceInitializer"]] ++
  define "ClassMemberDeclaration" [["ClassDeclaration"]] ++
  define "InstanceInitializer" [["Block"]] ++
  define "BlockStatement" [["ClassDeclaration"], ["Statement"]] ++
  define "Statement" [["StatementWithoutTrailingSubstatement"]] ++
  define "StatementWithoutTrailingSubstatement" [["Block"]]

/-- Names that stand for nothing of the kinds of those tokens. -/
def nestBarren : List String := [
  "PackageDeclaration", "ImportDeclaration", "InterfaceDeclaration", "EnumDeclaration", "Modifier",
  "TypeParameters", "Superclass", "Superinterfaces", "StaticInitializer", "ConstructorDeclaration",
  "FieldDeclaration", "MethodDeclaration", "LocalVariableDeclarationStatement", "LabeledStatement",
  "IfThenStatement", "IfThenElseStatement", "WhileStatement", "ForStatement", "EmptyStatement",
  "ExpressionStatement", "AssertStatement", "SwitchStatement", "DoStatement", "BreakStatement",
  "ContinueStatement", "ReturnStatement", "SynchronizedStatement", "ThrowStatement", "TryStatement",
  "Annotation", "BasicForStatement", "EnhancedForStatement"]

theorem sieve_nest : Sieve Nest.kinds nestBarren nestAlternatives where
  starves := by decide +kernel
  keeps := by decide +kernel
  closed := by decide

/-! ### What is built -/

/-- What is built for the name shows which classes and blocks it was built of: one of either sort,
but for a class body and for a whole file. -/
def Shown (name : String) (tokens : List Token) (node : Node) : Prop :=
  if name = "ClassBody" then
    ∃ (left : Token) (nest : Nest) (right : Token), left.kind = .leftBrace ∧ nest.Proper ∧
      right.kind = .rightBrace ∧
      tokens = left :: (nest.tokens ++ [right]) ∧
      node = .classBody (.classBody (nest.nodes.filterMap Node.member?) left.position)
  else if name = "CompilationUnit" then
    ∃ nest : Nest, nest.Proper ∧ tokens = nest.tokens ∧
      (nest.nodes = [node] ∨ ((∀ part ∈ nest.nodes, isUnitPart part) →
        node = .unit (.unit .absent .nil (nest.nodes.filterMap typeDeclaration?))))
  else ∃ nest : Nest, nest.Proper ∧ tokens = nest.tokens ∧ nest.nodes = [node]

variable {name : String} {tokens : List Token} {parts : Production} {nodes : List Node}
  {node : Node}

theorem nest_of_shown (plain : name ≠ "ClassBody" ∧ name ≠ "CompilationUnit")
    (shown : Shown name tokens node) :
    ∃ nest : Nest, nest.Proper ∧ tokens = nest.tokens ∧ nest.nodes = [node] := by
  rwa [Shown, if_neg plain.1, if_neg plain.2] at shown

/-- What repetitions of a name add. -/
theorem nest_of_occurrences (plain : name ≠ "ClassBody" ∧ name ≠ "CompilationUnit")
    (occurrences : List (List Token × Production × List Node))
    (each : ∀ occurrence ∈ occurrences,
      Made Shown [.rule name] occurrence.1 occurrence.2.1 occurrence.2.2) :
    ∃ nest : Nest, nest.Proper ∧ occurrences.flatMap (·.1) = nest.tokens ∧
      (occurrences.flatMap fun occurrence => TreeBuilder.bodyItems false occurrence.2.2) =
        nest.nodes := by
  induction occurrences with
  | nil => exact ⟨.nil, trivial, rfl, rfl⟩
  | cons occurrence occurrences ih =>
    obtain ⟨here, later⟩ := List.forall_mem_cons.mp each
    obtain ⟨others, properOthers, tokens, nodes⟩ := ih later
    obtain ⟨inner, parts, items⟩ := occurrence
    cases here with
    | @rule _ _ inner _ _ node _ shown rest =>
      cases rest
      obtain ⟨nest, proper, rfl, one⟩ := nest_of_shown plain shown
      refine ⟨nest.append others, proper.append properOthers, ?_, ?_⟩
      · simp [tokens]
      · have item : TreeBuilder.bodyItems false [node] = [node] := by
          cases isToken : node.isToken <;> simp [TreeBuilder.bodyItems, isToken]
        rw [Nest.nodes_append, one, List.flatMap_cons, nodes, item]

theorem shown_of_single {inner : String}
    (plain : inner ≠ "ClassBody" ∧ inner ≠ "CompilationUnit")
    (other : name ≠ "ClassBody" ∧ name ≠ "CompilationUnit")
    (made : Made Shown [.rule inner] tokens parts nodes) (reduces : Reduces name parts nodes node) :
    Shown name tokens node := by
  cases made with
  | @rule _ _ inner _ _ operand _ shown rest =>
    cases rest
    obtain ⟨rfl⟩ : [operand] = [node] := reduces
    rw [List.append_nil, Shown, if_neg other.1, if_neg other.2]
    exact nest_of_shown plain shown

/-- Classes and blocks are nodes by themselves. -/
theorem Nest.of_nodes (nest : Nest) :
    ∀ node ∈ nest.nodes, node.isToken = false ∧ node.items = [node] := by
  induction nest with
  | nil => exact fun _ none => absurd none List.not_mem_nil
  | type _ _ _ _ _ _ _ ih | block _ _ _ _ _ ih => exact List.forall_mem_cons.mpr ⟨⟨rfl, rfl⟩, ih⟩

/-- Everything among classes and blocks may stand in a class. -/
theorem Nest.mapM_member (nest : Nest) {select : Node → Option (Option (Tree .member))}
    (selects : ∀ node member, node.member? = some member → select node = some (some member)) :
    nest.nodes.mapM select = some ((nest.nodes.filterMap Node.member?).map some) := by
  induction nest with
  | nil => rfl
  | type _ _ _ _ _ _ _ ih | block _ _ _ _ _ ih =>
    rw [nodes, List.mapM_cons, ih, selects _ _ rfl]
    rfl

/-- And everything may stand in a block. -/
theorem Nest.mapM_stmt (nest : Nest) :
    nest.nodes.mapM Node.stmt? = some (nest.nodes.filterMap Node.stmt?) := by
  induction nest with
  | nil => rfl
  | type _ _ _ _ _ _ _ ih | block _ _ _ _ _ ih =>
    rw [nodes, List.mapM_cons, ih]
    rfl

theorem run_classDeclaration {word own : Token} {body : ClassBody} (fit : Fitting word)
    (isWord : word.kind = .classWord) (isName : own.kind = .identifier) :
    (classDeclaration.run ⟨name, [.ofToken word, .ofToken own, .classBody body]⟩).1 =
      .ok (.typeDeclaration
        (.classDeclaration .nil ⟨own.text, own.position⟩ .nil .absent .nil body)) := by
  unfold classDeclaration
  have none : modifiers.run ⟨name, [.ofToken word, .ofToken own, .classBody body]⟩ =
      (.ok [], ⟨name, [.ofToken word, .ofToken own, .classBody body]⟩) := by
    rw [ofToken_of_fitting fit (by rw [isWord]; rfl)]
    rfl
  rw [run_bind none, run_bind (run_expect fit isWord rfl), run_bind (run_identifier isName)]
  rfl

theorem run_classBody {left : Token} (fit : Fitting left) (isLeft : left.kind = .leftBrace)
    (nest : Nest) (same : (nodes.filter (!·.isToken)).flatMap Node.items = nest.nodes) :
    (classBody.run ⟨name, .ofToken left :: nodes⟩).1 =
      .ok (.classBody (.classBody (nest.nodes.filterMap Node.member?) left.position)) := by
  unfold classBody membersOf
  rw [run_bind (run_expect fit isLeft rfl), run_bind (run_items same)]
  simp only [bind_assoc]
  rw [run_bind (run_allAs (nest.mapM_member fun node member found => ?_) _)]
  · simp
    rfl
  · cases node <;> cases found <;> rfl

theorem run_braces {left : Token} (fit : Fitting left) (isLeft : left.kind = .leftBrace)
    (nest : Nest) (same : (nodes.filter (!·.isToken)).flatMap Node.items = nest.nodes) :
    (braces.run ⟨name, .ofToken left :: nodes⟩).1 =
      .ok (.block (.block (nest.nodes.filterMap Node.stmt?) left.position)) := by
  unfold braces
  rw [run_bind (run_expect fit isLeft rfl), run_bind (run_items same),
    run_bind (run_allAs nest.mapM_stmt _)]
  rfl

theorem Nest.no_packages (nest : Nest) : nest.nodes.filterMap package? = [] := by
  induction nest with
  | nil => rfl
  | type _ _ _ _ _ _ _ ih | block _ _ _ _ _ ih => exact ih

theorem Nest.no_imports (nest : Nest) : nest.nodes.filterMap importing? = [] := by
  induction nest with
  | nil => rfl
  | type _ _ _ _ _ _ _ ih | block _ _ _ _ _ ih => exact ih

theorem run_unitOf (nest : Nest) (all : ∀ part ∈ nest.nodes, isUnitPart part)
    (operands : Operands) :
    ((unitOf nest.nodes).run operands).1 =
      .ok (.unit (.unit .absent .nil (nest.nodes.filterMap typeDeclaration?))) := by
  unfold unitOf
  rw [run_bind (run_allAs (mapM_guard nest.nodes all) _), nest.no_packages, nest.no_imports]
  rfl

/-- Behind a brace there is what repetitions add, and the other brace. -/
theorem nest_of_braces {kind : Kind}
    (plain : name ≠ "ClassBody" ∧ name ≠ "CompilationUnit")
    (made : Made Shown [.token kind, .repeated [.rule name], .token .rightBrace] tokens parts nodes)
    (fit : ∀ token ∈ tokens, Fitting token) :
    ∃ (left : Token) (nest : Nest) (right : Token) (behind : Production) (others : List Node),
      left.kind = kind ∧ nest.Proper ∧ right.kind = .rightBrace ∧
      tokens = left :: (nest.tokens ++ [right]) ∧ parts = .token kind :: behind ∧
      nodes = .ofToken left :: others ∧
      (others.filter (!·.isToken)).flatMap Node.items = nest.nodes := by
  have brace {right : Token} (isRight : right.kind = .rightBrace) (fits : Fitting right) :
      (Node.ofToken right).isToken := by
    rw [ofToken_of_fitting fits (by rw [isRight]; rfl)]
    rfl
  cases made with
  | token left isLeft made =>
    cases made with
    | never _ made =>
      cases made with
      | token right isRight made =>
        cases made
        refine ⟨left, .nil, right, _, _, isLeft, trivial, isRight, rfl, rfl, rfl, ?_⟩
        simp [brace isRight (fit right (by simp)), Nest.nodes]
    | times _ element occurrences _ each made =>
      obtain ⟨nest, proper, same, items⟩ := nest_of_occurrences plain occurrences each
      cases made with
      | token right isRight made =>
        cases made
        refine ⟨left, nest, right, _, _, isLeft, proper, isRight, by rw [same], rfl, rfl, ?_⟩
        have list : (Node.list element nest.nodes).isToken = false ∧
          (Node.list element nest.nodes).items = nest.nodes := ⟨rfl, rfl⟩
        simp [brace isRight (fit right (by simp)), items, list]

theorem shown_of_file
    (made : Made Shown [.rule "TypeDeclaration", .repeated [.rule "TypeDeclaration"]] tokens parts
      nodes)
    (reduces : Reduces "CompilationUnit" parts nodes node) :
    Shown "CompilationUnit" tokens node := by
  cases made with
  | @rule _ _ inner _ _ operand _ shown rest =>
    obtain ⟨first, proper, rfl, one⟩ := nest_of_shown (by decide) shown
    cases rest with
    | never _ rest =>
      cases rest
      obtain ⟨rfl⟩ : [operand] = [node] := reduces
      exact ⟨first, proper, by simp, .inl one⟩
    | times _ element occurrences _ each rest =>
      cases rest
      obtain ⟨others, properOthers, tokens, nodes⟩ :=
        nest_of_occurrences (by decide) occurrences each
      refine ⟨first.append others, proper.append properOthers, by simp [tokens], .inr ?_⟩
      intro all
      obtain ⟨_, found, ran⟩ := reduces
      cases found
      have list : (Node.list element others.nodes).isToken = false ∧
        (Node.list element others.nodes).items = others.nodes := ⟨rfl, rfl⟩
      have same : ([operand, .list element others.nodes].filter (!·.isToken)).flatMap Node.items =
          (first.append others).nodes := by
        obtain ⟨single, alone⟩ := first.of_nodes operand (by simp [one])
        simp [single, alone, list, one]
      unfold compilationUnit at ran
      rw [nodes, run_bind (run_items same), run_unitOf _ all] at ran
      cases ran
      rfl

theorem shown_of_class (fit : ∀ token ∈ tokens, Fitting token)
    (made : Made Shown [.token .classWord, .token .identifier, .rule "ClassBody"] tokens parts
      nodes)
    (reduces : Reduces "NormalClassDeclaration" parts nodes node) :
    Shown "NormalClassDeclaration" tokens node := by
  cases made with
  | token word isWord made =>
    cases made with
    | token own isName made =>
      cases made with
      | rule shown made =>
        cases made
        obtain ⟨left, nest, right, isLeft, proper, isRight, rfl, rfl⟩ := shown
        obtain ⟨_, found, ran⟩ := reduces
        cases found
        rw [run_classDeclaration (fit word List.mem_cons_self) isWord isName] at ran
        cases ran
        exact ⟨.type word own left nest right .nil,
          ⟨isWord, isName, isLeft, proper, isRight, trivial⟩, by simp [Nest.tokens], rfl⟩

theorem shown_of_body (fit : ∀ token ∈ tokens, Fitting token)
    (made : Made Shown [.token .leftBrace, .repeated [.rule "ClassBodyDeclaration"],
      .token .rightBrace] tokens parts nodes)
    (reduces : Reduces "ClassBody" parts nodes node) : Shown "ClassBody" tokens node := by
  obtain ⟨left, nest, right, _, _, isLeft, proper, isRight, rfl, rfl, rfl, items⟩ :=
    nest_of_braces (by decide) made fit
  obtain ⟨_, found, ran⟩ := reduces
  cases found
  rw [run_classBody (fit left List.mem_cons_self) isLeft nest items] at ran
  cases ran
  exact ⟨left, nest, right, isLeft, proper, isRight, rfl, rfl⟩

theorem shown_of_block (fit : ∀ token ∈ tokens, Fitting token)
    (made : Made Shown [.token .leftBrace, .repeated [.rule "BlockStatement"],
      .token .rightBrace] tokens parts nodes)
    (reduces : Reduces "Block" parts nodes node) : Shown "Block" tokens node := by
  obtain ⟨left, nest, right, _, _, isLeft, proper, isRight, rfl, rfl, rfl, items⟩ :=
    nest_of_braces (by decide) made fit
  obtain ⟨_, found, ran⟩ := reduces
  cases found
  rw [run_braces (fit left List.mem_cons_self) isLeft nest items] at ran
  cases ran
  exact ⟨.block left nest right .nil, ⟨isLeft, proper, isRight, trivial⟩,
    by simp [Nest.tokens], rfl⟩

/-- Each alternative shows what it is made of. -/
theorem shown_of_made : ∀ alternative ∈ nestAlternatives, ∀ (tokens : List Token)
    (parts : Production) (nodes : List Node) (node : Node), (∀ token ∈ tokens, Fitting token) →
      Made Shown alternative.elements tokens parts nodes →
        Reduces alternative.name parts nodes node → Shown alternative.name tokens node := by
  intro alternative member tokens parts nodes node fit made reduces
  simp only [nestAlternatives, Grammar.define, List.map_cons, List.map_nil, List.cons_append,
    List.nil_append, List.mem_cons, List.not_mem_nil, or_false] at member
  rcases member with rfl | rfl | rfl | rfl | rfl | rfl | rfl | rfl | rfl | rfl | rfl | rfl | rfl |
    rfl
  · exact shown_of_file made reduces
  · exact shown_of_class fit made reduces
  · exact shown_of_body fit made reduces
  · exact shown_of_block fit made reduces
  all_goals exact shown_of_single (by decide) (by decide) made reduces

/-! ### Whole files -/

variable {goal : Element} {expansion : Expansion} {grammar : JavaFrontend.Grammar}
  {parser : Parser Node} {nest : Nest} {finish : Token}

/-- The file of the classes. -/
def Nest.unit (nest : Nest) : CompilationUnit :=
  .unit .absent .nil (nest.nodes.filterMap typeDeclaration?)

theorem run_unitGoal_of_single (nest : Nest) (all : ∀ part ∈ nest.nodes, isUnitPart part)
    (one : nest.nodes = [node]) :
    (unitGoal.run ⟨name, [node, .ofToken finish]⟩).1 = .ok (.unit nest.unit) := by
  have made := run_unitOf nest all ⟨name, [.ofToken finish]⟩
  rw [one] at all made
  rw [Nest.unit, one]
  cases node <;> first | exact made | cases all _ List.mem_cons_self

theorem unit_of_builds (parses : Parses goal expansion grammar parser)
    (isUnit : goal.names = ["CompilationUnit"]) (proper : nest.Proper) (some : nest.tokens ≠ [])
    (all : ∀ part ∈ nest.nodes, isUnitPart part)
    (fit : ∀ token ∈ nest.tokens, Fitting token) (ended : finish.kind = .endOfInput)
    (built : parser.Builds [.rule grammar.start] (nest.tokens ++ [finish]) [node]) :
    node = .unit nest.unit := by
  obtain ⟨last, operands, isLast, ran, ⟨none, -⟩ | ⟨name, inner, operand, same, rfl, named,
    inside⟩⟩ := parses.goal_of_builds built
  · exact absurd (by simpa using congrArg List.length none) some
  · obtain ⟨rfl, ⟨rfl⟩⟩ := List.append_inj' same rfl
    obtain ⟨rfl⟩ := isUnit.symm.trans named
    obtain ⟨id, parts, _, found, -⟩ := parses.rule_of_builds inside
    rw [if_pos (isSome_collection? found)] at ran
    have shown : Shown "CompilationUnit" nest.tokens operand :=
      parses.holds_of_sieve sieve_nest shown_of_made (by decide) (by decide)
        (fun token member => ⟨nest.kinds_of_proper proper token member, fit token member⟩) inside
    obtain ⟨other, properOther, tokens, either⟩ := shown
    have closes : Nest.Closes finish := by simp [Nest.Closes, ended]
    obtain ⟨rfl, -⟩ := Nest.eq_of_tokens proper properOther closes closes
      (congrArg (· ++ [finish]) tokens)
    rcases either with one | made
    · rw [List.singleton_append, run_unitGoal_of_single nest all one] at ran
      exact (Except.ok.inj ran).symm
    · rw [made all] at ran
      exact (Except.ok.inj ran).symm

/-! ### What the grammar derives -/

/-- The alternatives that a grammar of whole files is made of. -/
def unitAlternatives : List Alternative :=
  (Grammar.withGoal (Grammar.maybe ["CompilationUnit"])).alternatives

variable {kinds : List Kind}

theorem means_class (members : Occurs unitAlternatives [.rule "ClassBodyDeclaration"] kinds) :
    Means unitAlternatives [.rule "ClassDeclaration"]
      (.classWord :: .identifier :: .leftBrace :: (kinds ++ [Kind.rightBrace])) := by
  have body : Means unitAlternatives [.rule "ClassBody"]
      (.leftBrace :: (kinds ++ [Kind.rightBrace])) :=
    means_name (by decide) (.token .leftBrace (members.repeated (.token .rightBrace .nil)))
  have own : Means unitAlternatives [.rule "NormalClassDeclaration"]
      (.classWord :: .identifier :: .leftBrace :: (kinds ++ [Kind.rightBrace])) := by
    have none : Occurs unitAlternatives [.rule "Modifier"] [] := .nil
    exact means_name (by decide) <| none.repeated <| .token .classWord <|
      .token .identifier <| .absent ["TypeParameters"] <| .absent ["Superclass"] <|
      .absent ["Superinterfaces"] body
  exact means_name (by decide) own

theorem means_block (statements : Occurs unitAlternatives [.rule "BlockStatement"] kinds) :
    Means unitAlternatives [.rule "Block"] (.leftBrace :: (kinds ++ [Kind.rightBrace])) :=
  means_name (by decide) (.token .leftBrace (statements.repeated (.token .rightBrace .nil)))

/-- Classes and blocks may stand in a class and in a block. -/
theorem Nest.occurs (nest : Nest) (proper : nest.Proper) :
    Occurs unitAlternatives [.rule "ClassBodyDeclaration"] (nest.tokens.map (·.kind)) ∧
      Occurs unitAlternatives [.rule "BlockStatement"] (nest.tokens.map (·.kind)) := by
  induction nest with
  | nil => exact ⟨.nil, .nil⟩
  | type word name left inner right rest innerIh restIh =>
    obtain ⟨isWord, isName, isLeft, innerProper, isRight, restProper⟩ := proper
    have own := means_class (innerIh innerProper).1
    have member : Means unitAlternatives [.rule "ClassMemberDeclaration"] _ :=
      means_name (by decide) own
    have all := restIh restProper
    have first : Occurs unitAlternatives [.rule "ClassBodyDeclaration"] _ :=
      all.1.cons (means_name (by decide) member)
    have second : Occurs unitAlternatives [.rule "BlockStatement"] _ :=
      all.2.cons (means_name (by decide) own)
    simpa [tokens, isWord, isName, isLeft, isRight] using And.intro first second
  | block left inner right rest innerIh restIh =>
    obtain ⟨isLeft, innerProper, isRight, restProper⟩ := proper
    have own := means_block (innerIh innerProper).2
    have member : Means unitAlternatives [.rule "InstanceInitializer"] _ :=
      means_name (by decide) own
    have simple : Means unitAlternatives [.rule "StatementWithoutTrailingSubstatement"] _ :=
      means_name (by decide) own
    have statement : Means unitAlternatives [.rule "Statement"] _ :=
      means_name (by decide) simple
    have all := restIh restProper
    have first : Occurs unitAlternatives [.rule "ClassBodyDeclaration"] _ :=
      all.1.cons (means_name (by decide) member)
    have second : Occurs unitAlternatives [.rule "BlockStatement"] _ :=
      all.2.cons (means_name (by decide) statement)
    simpa [tokens, isLeft, isRight] using And.intro first second

/-- Classes by themselves are declarations, as which a file may have them. -/
theorem Nest.occurs_in_file (nest : Nest) (proper : nest.Proper)
    (all : ∀ part ∈ nest.nodes, isUnitPart part) :
    Occurs unitAlternatives [.rule "TypeDeclaration"] (nest.tokens.map (·.kind)) := by
  induction nest with
  | nil => exact .nil
  | type word name left inner right rest _ restIh =>
    obtain ⟨isWord, isName, isLeft, innerProper, isRight, restProper⟩ := proper
    have own := means_class (inner.occurs innerProper).1
    have others := restIh restProper fun part member => all part (List.mem_cons_of_mem _ member)
    have first : Occurs unitAlternatives [.rule "TypeDeclaration"] _ :=
      others.cons (means_name (by decide) own)
    simpa [tokens, isWord, isName, isLeft, isRight] using first
  | block => cases all _ List.mem_cons_self

theorem generates_of_nest (built : Grammar.forUnits = .ok grammar) (proper : nest.Proper)
    (all : ∀ part ∈ nest.nodes, isUnitPart part) (some : nest.tokens ≠ []) :
    grammar.Generates [.rule grammar.start] (nest.tokens.map (·.kind) ++ [Kind.endOfInput]) := by
  refine generates_of_goal .units built ?_
  obtain ⟨occurrences, each, same⟩ := nest.occurs_in_file proper all
  cases occurrences with
  | nil => exact absurd (by simpa using same.symm) some
  | cons first others =>
    have unit : Means unitAlternatives [.rule "CompilationUnit"] (nest.tokens.map (·.kind)) := by
      refine means_name (by decide : ⟨"CompilationUnit", [.rule "TypeDeclaration",
        .repeated [.rule "TypeDeclaration"]]⟩ ∈ unitAlternatives) ?_
      obtain ⟨here, later⟩ := List.forall_mem_cons.mp each
      rw [← same, List.flatten_cons, ← List.append_nil others.flatten]
      exact here.append (Occurs.repeated ⟨others, later, rfl⟩ .nil)
    have given := Means.present unit .nil
    rwa [List.append_nil] at given

/-- A text of classes, each with classes and blocks in it, is parsed into the file that it shows. -/
theorem parse_of_nest {source : String} {place : Position} (made : unitParser = .ok parser)
    (proper : nest.Proper) (some : nest.tokens ≠ []) (all : ∀ part ∈ nest.nodes, isUnitPart part)
    (waiting : (Lexer.ofString source).pending = nest.tokens ++ [Token.endOfInput place]) :
    ({ parser with typeContext := false } : Parser Node).parse (.ofString source) =
      .ok (.unit nest.unit) := by
  obtain ⟨grammar, built⟩ := Grammar.exists_build .units (by decide)
  have same : parser = .ofBuilder grammar (builder grammar) := by
    rw [unitParser, Grammar.forUnits, built] at made
    exact (Except.ok.inj made).symm
  subst same
  obtain ⟨_, parses⟩ := parses_of_build .units built false
  have plain (token : Token) (member : token ∈ nest.tokens) :
      token.kind ≠ .endOfInput ∧ token.kind ≠ .invalid := by
    have apart : ∀ kind ∈ Nest.kinds, kind ≠ .endOfInput ∧ kind ≠ .invalid := by decide
    exact apart _ (nest.kinds_of_proper proper token member)
  have fit (token : Token) (member : token ∈ nest.tokens) : Fitting token := by
    have waits : token ∈ (Lexer.ofString source).pending := by simp [waiting, member]
    exact (fitting_of_pending waits (plain token member).2).2
  have single (front : List Token) (token : Token) (back : List Token)
      (split : nest.tokens = front ++ token :: back) : ¬ token.isJoined := by
    intro joined
    have written : token.text = token.kind.text := by
      rw [split, List.append_assoc] at waiting
      exact Lexer.text_of_isJoined rfl waiting joined
    have apart : ∀ kind ∈ Nest.kinds, (kind.text.toList.head? == Option.some '>') = false := by
      decide
    have kept : token.kind ∈ Nest.kinds := nest.kinds_of_proper proper token (by simp [split])
    rw [Token.isJoined, written, apart _ kept] at joined
    cases joined
  obtain ⟨root, passed, parsed, begins, builds⟩ := parses.parse_of_generates waiting plain
    (generates_of_nest built proper all some)
    fun front token back split joined => absurd joined (single front token back split)
  obtain rfl := parses.passed_of_builds (fun token member => (plain token member).1) begins builds
  rw [parsed, unit_of_builds parses rfl proper some all fit rfl builds]

/-! ### Two classes of one name -/

/-- A class with two blocks, in each of which there is a class of the same name. -/
def twinText : String := "class A\x7b\x7bclass L\x7b\x7d\x7d\x7bclass L\x7b\x7d\x7d\x7d"

/-- The class whose name is in that column of the first line, and whose body is bare. -/
private def bareClass (column : Nat) : Nest :=
  .type ⟨.classWord, "class", ⟨1, column - 6⟩, .none⟩ ⟨.identifier, "L", ⟨1, column⟩, .none⟩
    ⟨.leftBrace, "\x7b", ⟨1, column + 1⟩, .none⟩ .nil
    ⟨.rightBrace, "\x7d", ⟨1, column + 2⟩, .none⟩ .nil

def twins : Nest :=
  .type ⟨.classWord, "class", ⟨1, 1⟩, .none⟩ ⟨.identifier, "A", ⟨1, 7⟩, .none⟩
    ⟨.leftBrace, "\x7b", ⟨1, 8⟩, .none⟩
    (.block ⟨.leftBrace, "\x7b", ⟨1, 9⟩, .none⟩ (bareClass 16)
      ⟨.rightBrace, "\x7d", ⟨1, 19⟩, .none⟩
      (.block ⟨.leftBrace, "\x7b", ⟨1, 20⟩, .none⟩ (bareClass 27)
        ⟨.rightBrace, "\x7d", ⟨1, 30⟩, .none⟩ .nil))
    ⟨.rightBrace, "\x7d", ⟨1, 31⟩, .none⟩ .nil

theorem parse_twins (made : unitParser = .ok parser) :
    ({ parser with typeContext := false } : Parser Node).parse (.ofString twinText) =
      .ok (.unit twins.unit) := by
  have waiting : (Lexer.ofString twinText).pending =
      twins.tokens ++ [Token.endOfInput ⟨1, 32⟩] := by
    decide +kernel
  exact parse_of_nest made (by simp [twins, bareClass, Nest.Proper]) (by simp [twins, Nest.tokens])
    (by simp [twins, Nest.nodes, isUnitPart]) waiting

theorem exists_unitParser : ∃ parser, unitParser = .ok parser := by
  obtain ⟨grammar, built⟩ := Grammar.exists_build .units (by decide)
  exact ⟨.ofBuilder grammar (builder grammar), by rw [unitParser, Grammar.forUnits, built]; rfl⟩

end JavaFrontend.Java
