import JavaFrontend.Java.Walk
import JavaFrontend.Proofs.Java.Words

/-!
What is in a tree, and what a walk comes to. The trees directly in a tree are listed in the order of
the source, which their words show: those of the tree contain those of its parts in turn
(`Tree.inOrder_children`). A walk comes to all of them in that order, with the exceptions that
`Tree.walked` names.
-/

namespace JavaFrontend.Java

variable {category : Category}

/-! ### The trees in a tree -/

def Row.subtrees : Row category → List Subtree
  | .nil => []
  | .cons tree rest => ⟨tree⟩ :: rest.subtrees

def Optional.subtrees : Optional category → List Subtree
  | .absent => []
  | .present tree => [⟨tree⟩]

/-- The trees directly in a tree, in the order of the source. -/
def Tree.children : Tree category → List Subtree
  -- types and annotations
  | .primitiveType annotations _ _ => annotations.subtrees
  | .classType segments => segments.subtrees
  | .arrayType element _ => [⟨element⟩]
  | .segment annotations _ arguments => annotations.subtrees ++ arguments.subtrees
  | .exactArgument type => [⟨type⟩]
  | .upperBounded bound | .lowerBounded bound => [⟨bound⟩]
  | .typeParameter annotations _ bounds => annotations.subtrees ++ bounds.subtrees
  | .annotationSingle _ value _ => [⟨value⟩]
  | .annotationPairs _ pairs _ => pairs.subtrees
  | .elementExpr value => [⟨value⟩]
  | .elementArray values => values.subtrees
  | .annotationElement value => [⟨value⟩]
  | .elementPair _ value => [⟨value⟩]
  | .annotationModifier value => [⟨value⟩]
  -- expressions
  | .binary left _ right => [⟨left⟩, ⟨right⟩]
  | .leading _ operand | .trailing operand _ => [⟨operand⟩]
  | .conditional condition ifTrue ifFalse =>
    [⟨condition⟩, ⟨ifTrue⟩, ⟨ifFalse⟩]
  | .assignment target _ value => [⟨target⟩, ⟨value⟩]
  | .instanceOf value type => [⟨value⟩, ⟨type⟩]
  | .cast types value => types.subtrees ++ [⟨value⟩]
  | .call _ arguments => arguments.subtrees
  | .callOn receiver typeArguments _ arguments =>
    [⟨receiver⟩] ++ typeArguments.subtrees ++ arguments.subtrees
  | .fieldAccess receiver _ => [⟨receiver⟩]
  | .arrayAccess array index => [⟨array⟩, ⟨index⟩]
  | .creation outer typeArguments type _ arguments body _ =>
    outer.subtrees ++ typeArguments.subtrees ++ [⟨type⟩] ++ arguments.subtrees ++
      body.subtrees
  | .newArray element lengths _ => [⟨element⟩] ++ lengths.subtrees
  | .newArrayOf element _ values => [⟨element⟩] ++ values.subtrees
  | .arrayInitializer values => values.subtrees
  | .lambda parameters body _ => [⟨parameters⟩, ⟨body⟩]
  | .blockLambda parameters body _ => [⟨parameters⟩, ⟨body⟩]
  | .methodReference receiver typeArguments _ =>
    [⟨receiver⟩] ++ typeArguments.subtrees
  | .classLiteral type _ => type.subtrees
  | .exprReceiver value => [⟨value⟩]
  | .typeReceiver type => [⟨type⟩]
  | .formalParameters parameters => parameters.subtrees
  -- statements
  | .block statements _ => statements.subtrees
  | .blockStmt body => [⟨body⟩]
  | .variablesStmt declared => [⟨declared⟩]
  | .localType declaration => [⟨declaration⟩]
  | .exprStmt value | .throwStmt value => [⟨value⟩]
  | .ifThen condition body | .whileLoop condition body => [⟨condition⟩, ⟨body⟩]
  | .doLoop body condition => [⟨body⟩, ⟨condition⟩]
  | .ifThenElse condition body otherwise =>
    [⟨condition⟩, ⟨body⟩, ⟨otherwise⟩]
  | .forLoop start condition update body =>
    [⟨start⟩] ++ condition.subtrees ++ update.subtrees ++ [⟨body⟩]
  | .forEach declared iterable body =>
    [⟨declared⟩, ⟨iterable⟩, ⟨body⟩]
  | .labeled _ body => [⟨body⟩]
  | .returnStmt value _ => value.subtrees
  | .synchronizedStmt lock body => [⟨lock⟩, ⟨body⟩]
  | .tryStmt resources body catches atLast =>
    resources.subtrees ++ [⟨body⟩] ++ catches.subtrees ++ atLast.subtrees
  | .switchStmt selector groups => [⟨selector⟩] ++ groups.subtrees
  | .assertStmt condition message => [⟨condition⟩] ++ message.subtrees
  | .constructorCall _ outer typeArguments arguments _ =>
    outer.subtrees ++ typeArguments.subtrees ++ arguments.subtrees
  | .varDeclaration modifiers type declarators =>
    modifiers.subtrees ++ [⟨type⟩] ++ declarators.subtrees
  | .declarator _ _ initial => initial.subtrees
  | .exprsStart values => values.subtrees
  | .variablesStart declared => [⟨declared⟩]
  | .resource modifiers type _ initial =>
    modifiers.subtrees ++ [⟨type⟩, ⟨initial⟩]
  | .catchClause modifiers types _ body =>
    modifiers.subtrees ++ types.subtrees ++ [⟨body⟩]
  | .switchGroup labels statements => labels.subtrees ++ statements.subtrees
  | .caseLabel value => [⟨value⟩]
  -- declarations
  | .classDeclaration modifiers _ typeParameters superclass interfaces body =>
    modifiers.subtrees ++ typeParameters.subtrees ++ superclass.subtrees ++ interfaces.subtrees ++
      [⟨body⟩]
  | .interfaceDeclaration modifiers _ typeParameters interfaces body =>
    modifiers.subtrees ++ typeParameters.subtrees ++ interfaces.subtrees ++ [⟨body⟩]
  | .enumDeclaration modifiers _ interfaces constants body =>
    modifiers.subtrees ++ interfaces.subtrees ++ constants.subtrees ++ [⟨body⟩]
  | .plainConstant annotations _ body => annotations.subtrees ++ body.subtrees
  | .constantWith annotations _ arguments body =>
    annotations.subtrees ++ arguments.subtrees ++ body.subtrees
  | .classBody members _ => members.subtrees
  | .field declared => [⟨declared⟩]
  | .method modifiers typeParameters result _ parameters exceptions body =>
    modifiers.subtrees ++ typeParameters.subtrees ++ result.subtrees ++ parameters.subtrees ++
      exceptions.subtrees ++ body.subtrees
  | .constructor modifiers typeParameters _ parameters exceptions body =>
    modifiers.subtrees ++ typeParameters.subtrees ++ parameters.subtrees ++ exceptions.subtrees ++
      [⟨body⟩]
  | .memberType declaration => [⟨declaration⟩]
  | .initializer _ body => [⟨body⟩]
  | .parameter modifiers type _ _ => modifiers.subtrees ++ [⟨type⟩]
  -- source files
  | .packageDeclaration annotations _ => annotations.subtrees
  | .unit package imports types => package.subtrees ++ imports.subtrees ++ types.subtrees
  | _ => []

/-- The trees directly in a tree that a walk comes to, in the order in which it does: the condition
of a `do` loop before its body, no annotations of type parameters, no type parameters of methods
and constructors, and no imports. -/
def Tree.walked : Tree category → List Subtree
  | .doLoop body condition => [⟨condition⟩, ⟨body⟩]
  | .typeParameter _ _ bounds => bounds.subtrees
  | .method modifiers _ result _ parameters exceptions body =>
    modifiers.subtrees ++ result.subtrees ++ parameters.subtrees ++ exceptions.subtrees ++
      body.subtrees
  | .constructor modifiers _ _ parameters exceptions body =>
    modifiers.subtrees ++ parameters.subtrees ++ exceptions.subtrees ++ [⟨body⟩]
  | .unit package _ types => package.subtrees ++ types.subtrees
  | tree => tree.children

def Subtree.outline (subtree : Subtree) : Outline := subtree.tree.outline

@[simp] theorem Row.outlines_eq : (row : Row category) →
    row.outlines = row.subtrees.map Subtree.outline
  | .nil => rfl
  | .cons tree rest => by
    rw [Row.outlines, Row.outlines_eq rest]
    rfl

@[simp] theorem Optional.outlines_eq (tree : Optional category) :
    tree.outlines = tree.subtrees.map Subtree.outline := by
  cases tree <;> rfl

theorem Tree.alone_eq (tree : Tree category) :
    tree.alone tree.parts = [Subtree.outline ⟨tree⟩] := rfl

/-- The outlines of the parts are those of the trees that a walk comes to. -/
theorem Tree.parts_eq (tree : Tree category) : tree.parts = tree.walked.map Subtree.outline := by
  cases tree with
  | _ =>
    first
    | exact Row.outlines_eq _
    | exact Optional.outlines_eq _
    | rfl
    | dsimp only [parts, walked, children]
      simp only [Row.outlines_eq, Optional.outlines_eq, alone_eq, List.map_append, List.map_cons,
        List.map_nil, List.cons_append, List.nil_append, List.append_assoc]

/-! ### The order of the source -/

/-- Both lists stand in the third, the one before the other. -/
def Precedes {α : Type} (first second all : List α) : Prop :=
  ∃ before between after, all = before ++ first ++ (between ++ second ++ after)

theorem Precedes.mono {α : Type} {first second all first' second' all' : List α}
    (precedes : Precedes first second all) (inFirst : first' <:+: first)
    (inSecond : second' <:+: second) (inAll : all <:+: all') : Precedes first' second' all' := by
  obtain ⟨before, between, after, rfl⟩ := precedes
  obtain ⟨a, b, rfl⟩ := inFirst
  obtain ⟨c, d, rfl⟩ := inSecond
  obtain ⟨e, f, rfl⟩ := inAll
  exact ⟨e ++ before ++ a, b ++ between ++ c, d ++ after ++ f, by simp⟩

/-- The words of the trees are among the words, in turn. -/
inductive InOrder : List Subtree → List Word → Prop where
  | nil (words : List Word) : InOrder [] words
  | cons {subtree : Subtree} {rest : List Subtree} {words : List Word} (before : List Word)
      (later : InOrder rest words) :
    InOrder (subtree :: rest) (before ++ subtree.tree.words ++ words)

namespace InOrder

variable {trees others : List Subtree} {words more : List Word}

theorem behind (inOrder : InOrder trees words) (before : List Word) :
    InOrder trees (before ++ words) := by
  cases inOrder with
  | nil => exact .nil _
  | cons first later =>
    rw [List.append_assoc, ← List.append_assoc, ← List.append_assoc]
    exact .cons (before ++ first) later

theorem ahead (inOrder : InOrder trees words) (after : List Word) :
    InOrder trees (words ++ after) := by
  induction inOrder with
  | nil words => exact .nil _
  | cons before _ ih =>
    rw [List.append_assoc]
    exact .cons before ih

theorem cons_word (inOrder : InOrder trees words) (word : Word) :
    InOrder trees (word :: words) :=
  inOrder.behind [word]

theorem append (first : InOrder trees words) (second : InOrder others more) :
    InOrder (trees ++ others) (words ++ more) := by
  induction first with
  | nil words => exact second.behind words
  | cons before _ ih =>
    rw [List.append_assoc]
    exact .cons before ih

theorem single (tree : Tree category) : InOrder [⟨tree⟩] tree.words := by
  have own : InOrder [⟨tree⟩] ([] ++ tree.words ++ []) := .cons [] (.nil [])
  simpa using own

theorem cons_tree (tree : Tree category) (later : InOrder trees words) :
    InOrder (⟨tree⟩ :: trees) (tree.words ++ words) :=
  (single tree).append later

theorem row : (row : Row category) → InOrder row.subtrees row.words
  | .nil => .nil []
  | .cons tree rest => cons_tree tree (InOrder.row rest)

theorem optional (tree : Optional category) : InOrder tree.subtrees tree.words := by
  cases tree with
  | absent => exact .nil []
  | present tree => exact single tree

theorem infix_of_mem (inOrder : InOrder trees words) {subtree : Subtree}
    (member : subtree ∈ trees) : subtree.tree.words <:+: words := by
  induction inOrder with
  | nil => cases member
  | @cons first _ words before _ ih =>
    rcases List.mem_cons.mp member with rfl | later
    · exact List.infix_append before _ words
    · exact (ih later).trans (List.suffix_append _ words).isInfix

theorem pairwise (inOrder : InOrder trees words) : trees.Pairwise fun first second =>
    Precedes first.tree.words second.tree.words words := by
  induction inOrder with
  | nil => exact .nil
  | @cons first _ words before later ih =>
    refine .cons (fun second member => ?_) (ih.imp fun precedes => ?_)
    · obtain ⟨between, after, same⟩ := later.infix_of_mem member
      exact ⟨before, between, after, by rw [← same]⟩
    · exact precedes.mono List.infix_rfl List.infix_rfl (List.suffix_append _ words).isInfix

end InOrder

/-- The trees in a tree stand in it in their order. -/
theorem Tree.inOrder_children (tree : Tree category) : InOrder tree.children tree.words := by
  cases tree with
  | _ =>
    first
    | exact .nil _
    | exact .row _
    | exact .optional _
    | dsimp only [children, words]
      try simp only [List.append_assoc, List.cons_append, List.nil_append]
      with_reducible repeat first
        | exact .nil _
        | exact .single _
        | exact .row _
        | exact .optional _
        | exact .ahead (.row _) _
        | refine .append (.row _) ?_
        | refine .append (.optional _) ?_
        | refine .cons_tree _ ?_
        | refine .cons_word ?_ _
        | refine .behind ?_ _

/-! ### Trees within trees -/

/-- None of the trees is larger. -/
def Within (trees : List Subtree) (size : Nat) : Prop :=
  ∀ subtree ∈ trees, sizeOf subtree.tree ≤ size

namespace Within

variable {trees others : List Subtree} {m n : Nat}

theorem nil : Within [] n := fun _ none => absurd none List.not_mem_nil

theorem single (tree : Tree category) : Within [⟨tree⟩] (sizeOf tree) := by
  rintro _ (_ | ⟨_, ⟨⟩⟩)
  exact Nat.le_refl _

theorem append (first : Within trees m) (second : Within others n) :
    Within (trees ++ others) (m + n) := by
  intro subtree member
  rcases List.mem_append.mp member with among | among
  · exact Nat.le_add_right_of_le (first subtree among)
  · exact Nat.le_add_left_of_le (second subtree among)

theorem cons (tree : Tree category) (later : Within trees n) :
    Within (⟨tree⟩ :: trees) (sizeOf tree + n) :=
  (single tree).append later

theorem lt {subtree : Subtree} (member : subtree ∈ trees) (within : Within trees m) (less : m < n) :
    sizeOf subtree.tree < n :=
  Nat.lt_of_le_of_lt (within subtree member) less

theorem row : (row : Row category) → Within row.subtrees (sizeOf row)
  | .nil => nil
  | .cons tree rest => fun subtree member => by
    have := cons tree (Within.row rest) subtree member
    simp
    omega

theorem optional (tree : Optional category) : Within tree.subtrees (sizeOf tree) := by
  cases tree with
  | absent => exact nil
  | present tree =>
    intro subtree member
    have := single tree subtree member
    simp
    omega

end Within

/-- The trees in a tree are smaller than it. -/
theorem Tree.sizeOf_lt_of_children {tree : Tree category} {subtree : Subtree}
    (child : subtree ∈ tree.children) : sizeOf subtree.tree < sizeOf tree := by
  cases tree with
  | _ =>
    dsimp only [children] at child
    first
    | exact absurd child List.not_mem_nil
    | apply Within.lt child
      · with_reducible repeat first
          | exact .single _
          | exact .row _
          | exact .optional _
          | apply Within.append
          | apply Within.cons
      · simp
        try omega

/-- The tree and all trees in it at any depth, each before those in it. -/
def Subtree.preorder (subtree : Subtree) : List Subtree :=
  subtree :: subtree.tree.children.attach.flatMap fun child => child.val.preorder
termination_by sizeOf subtree.tree
decreasing_by exact Tree.sizeOf_lt_of_children child.property

namespace Subtree

variable {subtree other : Subtree}

theorem preorder_eq (subtree : Subtree) :
    subtree.preorder = subtree :: subtree.tree.children.flatMap preorder := by
  rw [preorder, List.flatMap_subtype (g := preorder) (fun _ _ => rfl), List.unattach_attach]

/-- What holds of a tree if it holds of the trees directly in it, holds of all trees. -/
theorem induct {Holds : Subtree → Prop}
    (step : ∀ subtree : Subtree, (∀ child ∈ subtree.tree.children, Holds child) → Holds subtree)
    (subtree : Subtree) : Holds subtree := by
  induction size : sizeOf subtree.tree using Nat.strongRecOn generalizing subtree with
  | ind n ih =>
    exact step subtree fun child member =>
      ih _ (size ▸ Tree.sizeOf_lt_of_children member) child rfl

theorem preorder_subset (member : other ∈ subtree.preorder) : other.preorder ⊆ subtree.preorder := by
  induction subtree using induct with
  | step subtree ih =>
    rw [preorder_eq] at member
    rcases List.mem_cons.mp member with rfl | within
    · exact List.Subset.refl _
    · obtain ⟨child, among, within⟩ := List.mem_flatMap.mp within
      rw [preorder_eq subtree]
      exact fun inner inside =>
        List.mem_cons_of_mem _ (List.mem_flatMap.mpr ⟨child, among, ih child among within inside⟩)

/-- The words of a tree in another are among the words of that. -/
theorem words_infix_of_mem {subtree other : Subtree} (member : other ∈ subtree.preorder) :
    other.tree.words <:+: subtree.tree.words := by
  induction subtree using induct with
  | step subtree ih =>
    rw [preorder_eq] at member
    rcases List.mem_cons.mp member with rfl | within
    · exact List.infix_rfl
    · obtain ⟨child, among, within⟩ := List.mem_flatMap.mp within
      exact (ih child among within).trans (subtree.tree.inOrder_children.infix_of_mem among)

/-- Of two trees in a tree the later one is in the earlier one, or its words stand behind those of
the earlier one. -/
theorem pairwise_preorder (subtree : Subtree) : subtree.preorder.Pairwise fun first second =>
    second ∈ first.preorder ∨
      Precedes first.tree.words second.tree.words subtree.tree.words := by
  induction subtree using induct with
  | step subtree ih =>
    have inOrder := subtree.tree.inOrder_children
    rw [preorder_eq, List.pairwise_cons, List.pairwise_flatMap]
    refine ⟨fun other within => ?_, fun child among => ?_, ?_⟩
    · rw [preorder_eq]
      exact .inl (List.mem_cons_of_mem _ within)
    · exact (ih child among).imp (.imp id (·.mono List.infix_rfl List.infix_rfl
        (inOrder.infix_of_mem among)))
    · refine inOrder.pairwise.imp fun precedes first within second within' => .inr ?_
      exact precedes.mono (words_infix_of_mem within) (words_infix_of_mem within') List.infix_rfl

end Subtree

end JavaFrontend.Java
