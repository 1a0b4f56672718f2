import JavaFrontend.Java.Parser
import JavaFrontend.Proofs.Chart.Answers
import JavaFrontend.Proofs.Token.Lexeme

/-!
What generic nodes are images of. A derivation tree has a rule of the grammar at each inner node
and a token at each leaf. Its image leaves out the nodes of rules for a single name, flattens
repetitions into lists and has a generic node for every other rule. The builder of generic nodes
makes of a rule the image of the tree over the trees of its parts, so it never fails on what was
built from them, and all the leaves of an image are those of the tree.
-/

namespace JavaFrontend

open Java

/-! ### Leaves of nodes -/

namespace Node

mutual

/-- The leaves of the node from left to right, where lists and generic nodes are the inner nodes. -/
def leaves : Node → List Node
  | .token leaf => [.token leaf]
  | .identifier leaf => [.identifier leaf]
  | .literal leaf => [.literal leaf]
  | .list _ nodes | .generic _ nodes => leavesOfAll nodes
  | _ => []

def leavesOfAll : List Node → List Node
  | [] => []
  | node :: rest => node.leaves ++ leavesOfAll rest

end

/-- What is asked of lists and generic nodes is gathered from the nodes in them. -/
structure Gathers {β : Type} (ask : Node → List β) : Prop where
  list : ∀ rule items, ask (.list rule items) = items.flatMap ask
  generic : ∀ rule children, ask (.generic rule children) = children.flatMap ask

theorem gathers_leaves : Gathers leaves := by
  have all (nodes : List Node) : leavesOfAll nodes = nodes.flatMap leaves := by
    induction nodes with
    | nil => rfl
    | cons node nodes ih => rw [leavesOfAll, ih, List.flatMap_cons]
  refine ⟨fun rule items => ?_, fun rule children => ?_⟩
  · rw [leaves, all]
  · rw [leaves, all]

theorem gathers_leafKinds : Gathers leafKinds := by
  have all (nodes : List Node) : leafKindsOfAll nodes = nodes.flatMap leafKinds := by
    induction nodes with
    | nil => rfl
    | cons node nodes ih => rw [leafKindsOfAll, ih, List.flatMap_cons]
  refine ⟨fun rule items => ?_, fun rule children => ?_⟩
  · rw [leafKinds, all]
  · rw [leafKinds, all]

theorem leaves_ofToken (token : Token) : (ofToken token).leaves = [ofToken token] := by
  unfold ofToken
  split
  · rw [leaves]
  · split
    · rw [leaves]
    · rw [leaves]

end Node

/-- The token has a literal value only if it is a literal of that kind. -/
def Token.ValueFits (token : Token) : Prop :=
  ∀ kind, token.value.kind? = some kind → token.kind = kind

/-- A literal is of the kind that its value has, or else of the kind of its token. -/
theorem Java.LiteralValue.kind_of_ofToken? {token : Token} {value : LiteralValue}
    (found : ofToken? token = some value) : value.kind = token.value.kind?.getD token.kind := by
  obtain ⟨kind, text, position, stored⟩ := token
  cases stored with
  | int | long | float | double | char | string =>
    cases found
    rfl
  | none | error =>
    unfold ofToken? at found
    dsimp only at found
    split at found <;> cases found <;> rfl

theorem Node.leafKinds_ofToken {token : Token} (fits : token.ValueFits) :
    (ofToken token).leafKinds = [token.kind] := by
  unfold ofToken
  by_cases identifier : token.kind = .identifier
  · rw [if_pos identifier, leafKinds, identifier]
  · rw [if_neg identifier]
    cases found : LiteralValue.ofToken? token with
    | none => rfl
    | some value =>
      have same := LiteralValue.kind_of_ofToken? found
      dsimp only
      rw [leafKinds, same]
      cases stored : token.value.kind? with
      | none => rfl
      | some kind => rw [fits kind stored, Option.getD_some]

/-! ### Derivation trees -/

/-- A derivation: a token that stands for itself, or a rule and the derivations of its parts. -/
inductive DerivationTree where
  | leaf (token : Token)
  | node (rule : Rule) (children : List DerivationTree)

namespace DerivationTree

/-- What the tree is a derivation of. -/
def root : DerivationTree → Part
  | .leaf token => .token token.kind
  | .node rule _ => .rule rule.name

mutual

/-- The leaves from left to right. -/
def tokens : DerivationTree → List Token
  | .leaf token => [token]
  | .node _ children => tokensOfAll children

def tokensOfAll : List DerivationTree → List Token
  | [] => []
  | tree :: rest => tree.tokens ++ tokensOfAll rest

end

/-- Every inner node has a rule of the grammar over derivations of its parts. -/
inductive Valid (grammar : Grammar) : DerivationTree → Prop where
  | leaf (token : Token) : Valid grammar (.leaf token)
  | node {rule : Rule} {children : List DerivationTree} (known : rule ∈ grammar.rules)
      (parts : children.map root = rule.parts) (all : ∀ child ∈ children, Valid grammar child) :
    Valid grammar (.node rule children)

/-- The items of the first image, which is a list, and the other images. -/
def flattened : List Node → List Node
  | [] => []
  | first :: rest => first.items ++ rest

/-- The image of a node with the rule, given those of its children. -/
def imageOf (rule : Rule) (images : List Node) : Node :=
  if TreeBuilder.isRepetition rule.name then
    .list rule.name (if rule.isLeftRecursive then flattened images else images)
  else
    match rule.unitTarget?, images with
    | some _, image :: _ => image
    | _, _ => .generic rule.name images

mutual

/-- The image of the tree: repetitions are flattened into lists, rules for a single name are left
out, and all others become generic nodes. -/
def image : DerivationTree → Node
  | .leaf token => .ofToken token
  | .node rule children => imageOf rule (imagesOfAll children)

def imagesOfAll : List DerivationTree → List Node
  | [] => []
  | tree :: rest => tree.image :: imagesOfAll rest

end

variable {grammar : Grammar} {rule : Rule} {tree : DerivationTree} {trees : List DerivationTree}

theorem tokensOfAll_eq (trees : List DerivationTree) :
    tokensOfAll trees = trees.flatMap tokens := by
  induction trees with
  | nil => rfl
  | cons tree trees ih => rw [tokensOfAll, ih, List.flatMap_cons]

theorem imagesOfAll_eq (trees : List DerivationTree) : imagesOfAll trees = trees.map image := by
  induction trees with
  | nil => rfl
  | cons tree trees ih => rw [imagesOfAll, ih, List.map_cons]

@[simp] theorem tokens_node (rule : Rule) (children : List DerivationTree) :
    (node rule children).tokens = children.flatMap tokens := by
  rw [tokens, tokensOfAll_eq]

@[simp] theorem image_node (rule : Rule) (children : List DerivationTree) :
    (node rule children).image = imageOf rule (children.map image) := by
  rw [image, imagesOfAll_eq]

theorem parts_of_unitTarget {name : String} (unit : rule.unitTarget? = some name) :
    rule.parts = [.rule name] := by
  unfold Rule.unitTarget? at unit
  split at unit
  · rename_i parts
    cases unit
    exact parts
  · cases unit

theorem parts_of_isLeftRecursive (recursive : rule.isLeftRecursive) :
    ∃ part parts, rule.parts = .rule rule.name :: part :: parts := by
  unfold Rule.isLeftRecursive at recursive
  split at recursive
  · rename_i name part parts same
    rw [same, beq_iff_eq.mp recursive]
    exact ⟨part, parts, rfl⟩
  · cases recursive

/-- The image of a derivation of a repetition is a list. -/
theorem image_of_repetition {name : String} (repetition : TreeBuilder.isRepetition name)
    (root : tree.root = .rule name) : ∃ items, tree.image = .list name items := by
  cases tree with
  | leaf token => cases root
  | node rule children =>
    obtain rfl := Part.rule.inj root
    rw [image_node]
    unfold imageOf
    rw [if_pos repetition]
    exact ⟨_, rfl⟩

/-! ### Leaves of images -/

/-- What is gathered from an image is what is asked of the tokens. -/
theorem gathered_image {β : Type} {ask : Node → List β} (gathers : Node.Gathers ask)
    (valid : tree.Valid grammar) :
    ask tree.image = tree.tokens.flatMap fun token => ask (.ofToken token) := by
  induction valid with
  | leaf token => simp [image, tokens]
  | @node rule children known parts all ih =>
    have below : (children.map image).flatMap ask =
        (children.flatMap tokens).flatMap fun token => ask (.ofToken token) := by
      rw [List.flatMap_map, List.flatMap_assoc]
      exact List.flatMap_congr ih
    rw [image_node, tokens_node, ← below]
    unfold imageOf
    split
    · rename_i repetition
      rw [gathers.list]
      split
      · rename_i recursive
        obtain ⟨part, rest, same⟩ := parts_of_isLeftRecursive recursive
        rw [same] at parts
        obtain ⟨first, others, rfl, root, -⟩ := List.map_eq_cons_iff.mp parts
        obtain ⟨items, list⟩ := image_of_repetition repetition root
        rw [List.map_cons, list, flattened, Node.items, List.flatMap_append, List.flatMap_cons,
          gathers.list]
      · rfl
    · split
      · rename_i name first others unit images
        have single := congrArg List.length (parts_of_unitTarget unit ▸ parts)
        have width := congrArg List.length images
        rw [List.length_map] at single width
        obtain rfl : others = [] :=
          List.eq_nil_of_length_eq_zero (by simpa [single] using width.symm)
        rw [images, List.flatMap_singleton]
      · rw [gathers.generic]

theorem leaves_image (valid : tree.Valid grammar) :
    tree.image.leaves = tree.tokens.map .ofToken := by
  rw [gathered_image Node.gathers_leaves valid, ← List.flatMap_singleton' (tree.tokens.map _),
    List.flatMap_map]
  simp only [Node.leaves_ofToken]

theorem leafKinds_image (valid : tree.Valid grammar)
    (fit : ∀ token ∈ tree.tokens, token.ValueFits) :
    tree.image.leafKinds = tree.tokens.map (·.kind) := by
  rw [gathered_image Node.gathers_leafKinds valid, ← List.flatMap_singleton' (tree.tokens.map _),
    List.flatMap_map]
  exact List.flatMap_congr fun token member => Node.leafKinds_ofToken (fit token member)

/-! ### What the builder of generic nodes makes -/

/-- The builder makes of a rule the image of the tree over the trees of its parts. -/
theorem reduce_generic {id : Nat} (found : grammar.rule? id = some rule)
    (parts : trees.map root = rule.parts) :
    (TreeBuilder.generic grammar).reduce id (trees.map image) = .ok (node rule trees).image := by
  have entry : (TreeBuilder.generic grammar).reductions[id]? =
      some (rule, TreeBuilder.reductionOf (fun _ => some TreeBuilder.genericNode) rule) := by
    rw [TreeBuilder.generic, TreeBuilder.ofGrammar, Array.getElem?_map]
    exact congrArg (Option.map _) found
  rw [image_node]
  unfold TreeBuilder.reduce imageOf
  rw [entry]
  unfold TreeBuilder.reductionOf
  by_cases repetition : TreeBuilder.isRepetition rule.name
  · rw [if_pos repetition, if_pos repetition]
    unfold TreeBuilder.repeatedNode
    by_cases recursive : rule.isLeftRecursive
    · obtain ⟨part, rest, same⟩ := parts_of_isLeftRecursive recursive
      rw [same] at parts
      obtain ⟨first, others, rfl, root, -⟩ := List.map_eq_cons_iff.mp parts
      obtain ⟨items, list⟩ := image_of_repetition repetition root
      simp [recursive, list, flattened, Node.items, TreeBuilder.generic, TreeBuilder.ofGrammar,
        TreeBuilder.bodyItems]
    · simp [recursive, TreeBuilder.generic, TreeBuilder.ofGrammar, TreeBuilder.bodyItems]
  · rw [if_neg repetition, if_neg repetition]
    cases unit : rule.unitTarget? with
    | some name =>
      rw [parts_of_unitTarget unit] at parts
      obtain ⟨child, others, rfl, -, -⟩ := List.map_eq_cons_iff.mp parts
      rfl
    | none => rfl

/-- What the builder makes is made of images of derivations of the parts over the tokens. -/
theorem trees_of_builds {parts : List Part} {tokens : List Token} {values : List Node}
    (built : (Parser.generic grammar).toChartParser.Builds parts tokens values) :
    ∃ trees : List DerivationTree, trees.map root = parts ∧
      (∀ tree ∈ trees, tree.Valid grammar) ∧ trees.flatMap DerivationTree.tokens = tokens ∧
      trees.map image = values := by
  induction built with
  | nil => exact ⟨[], rfl, by simp, rfl, rfl⟩
  | token token _ ih =>
    obtain ⟨trees, rfl, valid, rfl, rfl⟩ := ih
    refine ⟨.leaf token :: trees, rfl, ?_, rfl, ?_⟩
    · exact List.forall_mem_cons.mpr ⟨.leaf token, valid⟩
    · rw [List.map_cons, image]
      rfl
  | @rule id rule parts inner tokens operands values value found _ made _ bodyIh restIh =>
    obtain ⟨children, parts, childrenValid, rfl, rfl⟩ := bodyIh
    obtain ⟨trees, rfl, valid, rfl, rfl⟩ := restIh
    have same := made.symm.trans (reduce_generic found parts)
    cases same
    refine ⟨.node rule children :: trees, rfl, ?_, ?_, rfl⟩
    · exact List.forall_mem_cons.mpr
        ⟨.node (Grammar.rule?_mem found) parts childrenValid, valid⟩
    · rw [List.flatMap_cons, tokens_node]

end DerivationTree

namespace Parser

/-- The parser that builds generic nodes, whether the source is told about type arguments or
not. -/
def genericFor (grammar : Grammar) (typeContext : Bool) : Parser Node :=
  { generic grammar with typeContext }

variable {grammar : Grammar}

theorem ready_genericFor {draft : GrammarDraft} (built : draft.build = .ok grammar)
    (typeContext : Bool) : (genericFor grammar typeContext).Ready :=
  ⟨GrammarDraft.well_formed_of_build built, rfl⟩

/-- Whatever a rule is built from, the builder of generic nodes makes something of it. -/
theorem total_genericFor (grammar : Grammar) (typeContext : Bool) :
    (genericFor grammar typeContext).Total := by
  intro id rule tokens operands found _ built
  obtain ⟨trees, parts, -, -, rfl⟩ := DerivationTree.trees_of_builds built
  exact ⟨_, DerivationTree.reduce_generic found parts⟩

end Parser

end JavaFrontend
