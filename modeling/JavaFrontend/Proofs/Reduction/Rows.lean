import JavaFrontend.Java.Reduction.Declarations
import JavaFrontend.Proofs.Java.Words

/-!
What nodes are like, in as much detail as the reductions tell nodes apart: a sort for each kind of
node, and finer ones where a reduction accepts some nodes of a kind only. A shape lists the sorts
that a part of a rule may be made into. A row of pieces gives the shapes of the operands of a
completed rule, some of which may be missing.
-/

namespace JavaFrontend

open Java

/-! ### Sorts -/

/-- A sort of nodes. -/
inductive NodeSort where
  | token (kind : Kind)
  | identifier | literal | name
  | primitiveType | classType | arrayType | dims
  | typeArguments | typeArgument | diamond | typeParameters | typeParameter
  | annotationUse | elementValue | elementPair | modifier
  /-- Any expression with a node of its own. -/
  | expr
  /-- The creation of an object without an outer one. -/
  | creation
  | arrayInitializer
  | arguments | lambdaParameters
  | stmt | block | varDeclaration | declarator
  /-- A declarator without an initial value. -/
  | bareDeclarator
  | parameter | catchClause | finallyBlock | resources | resource
  | switchLabel | switchGroup | switchBlock
  | superclass | interfaces | exceptions | classBody | member | enumConstant | enumBody
  | typeDeclaration | package | importing | unit | empty
deriving DecidableEq

namespace NodeSort

/-- The node is of the sort. -/
inductive Holds : NodeSort → Node → Prop where
  | token {kind : Kind} (part : Token) (same : part.kind = kind) :
    Holds (.token kind) (.token part)
  | identifier (part) : Holds .identifier (.identifier part)
  | literal (part) : Holds .literal (.literal part)
  | name (part) : Holds .name (.name part)
  | primitiveType (annotations kind position) :
    Holds .primitiveType (.type (.primitiveType annotations kind position))
  | classType (segments) : Holds .classType (.type (.classType segments))
  | arrayType (element dims) : Holds .arrayType (.type (.arrayType element dims))
  | dims (count) : Holds .dims (.dims count)
  | typeArguments (parts) : Holds .typeArguments (.typeArguments parts)
  | typeArgument (part) : Holds .typeArgument (.typeArgument part)
  | diamond : Holds .diamond .diamond
  | typeParameters (parts) : Holds .typeParameters (.typeParameters parts)
  | typeParameter (part) : Holds .typeParameter (.typeParameter part)
  | annotationUse (part) : Holds .annotationUse (.annotationUse part)
  | elementValue (part) : Holds .elementValue (.elementValue part)
  | elementPair (part) : Holds .elementPair (.elementPair part)
  | modifier (part) : Holds .modifier (.modifier part)
  | expr (part) : Holds .expr (.expr part)
  | creation (typeArguments type diamond arguments body position) :
    Holds .creation
      (.expr (.creation .absent typeArguments type diamond arguments body position))
  | arrayInitializer (values) : Holds .arrayInitializer (.expr (.arrayInitializer values))
  | arguments (parts) : Holds .arguments (.arguments parts)
  | lambdaParameters (part) : Holds .lambdaParameters (.lambdaParameters part)
  | stmt (part) : Holds .stmt (.stmt part)
  | block (part) : Holds .block (.block part)
  | varDeclaration (part) : Holds .varDeclaration (.varDeclaration part)
  | declarator (part) : Holds .declarator (.declarator part)
  | bareDeclarator (name dims) :
    Holds .bareDeclarator (.declarator (.declarator name dims .absent))
  | parameter (part) : Holds .parameter (.parameter part)
  | catchClause (part) : Holds .catchClause (.catchClause part)
  | finallyBlock (part) : Holds .finallyBlock (.finallyBlock part)
  | resources (parts) : Holds .resources (.resources parts)
  | resource (part) : Holds .resource (.resource part)
  | switchLabel (part) : Holds .switchLabel (.switchLabel part)
  | switchGroup (part) : Holds .switchGroup (.switchGroup part)
  | switchBlock (parts) : Holds .switchBlock (.switchBlock parts)
  | superclass (part) : Holds .superclass (.superclass part)
  | interfaces (parts) : Holds .interfaces (.interfaces parts)
  | exceptions (parts) : Holds .exceptions (.exceptions parts)
  | classBody (part) : Holds .classBody (.classBody part)
  | member (part) : Holds .member (.member part)
  | enumConstant (part) : Holds .enumConstant (.enumConstant part)
  | enumBody (constants body) : Holds .enumBody (.enumBody constants body)
  | typeDeclaration (part) : Holds .typeDeclaration (.typeDeclaration part)
  | package (part) : Holds .package (.package part)
  | importing (part) : Holds .importing (.importing part)
  | unit (part) : Holds .unit (.unit part)
  | empty (position) : Holds .empty (.empty position)

/-- The sort of the leaves for tokens of a kind. -/
def ofKind (kind : Kind) : NodeSort :=
  if kind = .identifier then .identifier else if kind.isLiteral then .literal else .token kind

def isToken : NodeSort → Bool
  | .token _ => true
  | _ => false

variable {sort : NodeSort} {node : Node}

theorem Holds.isToken (holds : sort.Holds node) : node.isToken = sort.isToken := by
  cases holds <;> rfl

/-- A node of a sort is no list. -/
theorem Holds.items (holds : sort.Holds node) : node.items = [node] := by
  cases holds <;> rfl

end NodeSort

/-! ### Shapes -/

/-- What a part of a rule may be made into: nodes of some sorts, or lists of nodes of some sorts. -/
structure Shape where
  sorts : List NodeSort
  items : List NodeSort
deriving DecidableEq

namespace Shape

/-- A node by itself. -/
def of (sorts : List NodeSort) : Shape := ⟨sorts, []⟩

/-- A list of nodes. -/
def listOf (items : List NodeSort) : Shape := ⟨[], items⟩

/-- A node by itself, or several in a list. -/
def oneOrList (sorts : List NodeSort) : Shape := ⟨sorts, sorts⟩

inductive Holds (shape : Shape) : Node → Prop where
  | single {sort : NodeSort} {node : Node} (among : sort ∈ shape.sorts) (holds : sort.Holds node) :
    Holds shape node
  | list (rule : String) {items : List Node} (some : items ≠ [])
      (all : ∀ item ∈ items, ∃ sort ∈ shape.items, sort.Holds item) : Holds shape (.list rule items)

/-- Whether all that is of the one shape is of the other too. -/
def within (shape other : Shape) : Bool :=
  shape.sorts.all (· ∈ other.sorts) && shape.items.all (· ∈ other.items)

variable {shape other : Shape} {node : Node}

theorem Holds.within (holds : shape.Holds node) (within : shape.within other) :
    other.Holds node := by
  simp only [Shape.within, Bool.and_eq_true, List.all_eq_true, decide_eq_true_eq] at within
  cases holds with
  | single among holds => exact .single (within.1 _ among) holds
  | list rule some all =>
    refine .list rule some fun item member => ?_
    obtain ⟨sort, among, holds⟩ := all item member
    exact ⟨sort, within.2 sort among, holds⟩

theorem Holds.items (holds : shape.Holds node) :
    ∀ item ∈ node.items, ∃ sort ∈ shape.sorts ++ shape.items, sort.Holds item := by
  intro item member
  cases holds with
  | single among holds =>
    obtain rfl := List.mem_singleton.mp (holds.items ▸ member)
    exact ⟨_, List.mem_append_left _ among, holds⟩
  | list rule some all =>
    obtain ⟨sort, among, holds⟩ := all item member
    exact ⟨sort, List.mem_append_right _ among, holds⟩

theorem holds_of {sorts : List NodeSort} :
    (of sorts).Holds node ↔ ∃ sort ∈ sorts, sort.Holds node := by
  constructor
  · rintro (⟨among, holds⟩ | ⟨rule, some, all⟩)
    · exact ⟨_, among, holds⟩
    · obtain ⟨first, rest, rfl⟩ := List.exists_cons_of_ne_nil some
      obtain ⟨sort, none, -⟩ := all first List.mem_cons_self
      cases none
  · rintro ⟨sort, among, holds⟩
    exact .single among holds

theorem holds_listOf {sorts : List NodeSort} : (listOf sorts).Holds node ↔
    ∃ rule items, node = .list rule items ∧ items ≠ [] ∧
      ∀ item ∈ items, ∃ sort ∈ sorts, sort.Holds item := by
  constructor
  · rintro (⟨none, -⟩ | ⟨rule, some, all⟩)
    · cases none
    · exact ⟨rule, _, rfl, some, all⟩
  · rintro ⟨rule, items, rfl, some, all⟩
    exact .list rule some all

end Shape

/-! ### Rows -/

/-- A piece of a row. -/
inductive Piece where
  | part (shape : Shape)
  | maybe (row : List Piece)

namespace Piece

/-- The nodes are the parts of the row in order, some of those that may be missing left out. -/
inductive Matches : List Piece → List Node → Prop where
  | nil : Matches [] []
  | part {shape : Shape} {node : Node} {row : List Piece} {nodes : List Node}
      (holds : shape.Holds node) (rest : Matches row nodes) :
    Matches (.part shape :: row) (node :: nodes)
  | skip {inner row : List Piece} {nodes : List Node} (rest : Matches row nodes) :
    Matches (.maybe inner :: row) nodes
  | take {inner row : List Piece} {front nodes : List Node} (body : Matches inner front)
      (rest : Matches row nodes) : Matches (.maybe inner :: row) (front ++ nodes)

variable {row other : List Piece} {nodes : List Node} {node : Node}

theorem Matches.append {more : List Piece} {later : List Node} (head : Matches row nodes)
    (tail : Matches more later) : Matches (row ++ more) (nodes ++ later) := by
  induction head with
  | nil => exact tail
  | part holds _ ih => exact .part holds ih
  | skip _ ih => exact .skip ih
  | take body _ _ ih =>
    rw [List.append_assoc]
    exact .take body ih

theorem matches_append (row : List Piece) {more : List Piece}
    (matched : Matches (row ++ more) nodes) :
    ∃ front rest, nodes = front ++ rest ∧ Matches row front ∧ Matches more rest := by
  induction row generalizing nodes with
  | nil => exact ⟨[], nodes, rfl, .nil, matched⟩
  | cons piece row ih =>
    cases matched with
    | part holds later =>
      obtain ⟨front, rest, rfl, head, tail⟩ := ih later
      exact ⟨_ :: front, rest, rfl, .part holds head, tail⟩
    | skip later =>
      obtain ⟨front, rest, rfl, head, tail⟩ := ih later
      exact ⟨front, rest, rfl, .skip head, tail⟩
    | take body later =>
      obtain ⟨front, rest, rfl, head, tail⟩ := ih later
      exact ⟨_, rest, (List.append_assoc ..).symm, .take body head, tail⟩

/-! ### What may come first -/

def isOptional : Piece → Bool
  | .part _ => false
  | .maybe _ => true

mutual

/-- The shapes that the first node for the piece may have. -/
def firsts : Piece → List Shape
  | .part shape => [shape]
  | .maybe row => firstsOf row

def firstsOf : List Piece → List Shape
  | [] => []
  | piece :: row => piece.firsts ++ if piece.isOptional then firstsOf row else []

end

theorem Matches.first (matched : Matches row (node :: nodes)) :
    ∃ shape ∈ firstsOf row, shape.Holds node := by
  generalize same : node :: nodes = all at matched
  induction matched generalizing nodes with
  | nil => cases same
  | part holds =>
    cases same
    exact ⟨_, by simp [firstsOf, firsts], holds⟩
  | skip _ ih =>
    obtain ⟨shape, member, holds⟩ := ih same
    exact ⟨shape, by simp [firstsOf, isOptional, member], holds⟩
  | @take inner row front others body _ bodyIh restIh =>
    cases front with
    | nil =>
      obtain ⟨shape, member, holds⟩ := restIh same
      exact ⟨shape, by simp [firstsOf, isOptional, member], holds⟩
    | cons first front =>
      cases same
      obtain ⟨shape, member, holds⟩ := bodyIh rfl
      exact ⟨shape, by simp [firstsOf, firsts, member], holds⟩

/-- Whether none of the sorts may come first, by itself or in a list. -/
def avoids (sorts : List NodeSort) (row : List Piece) : Bool :=
  (firstsOf row).all fun shape => (shape.sorts ++ shape.items).all (· ∉ sorts)

/-! ### All that may be there -/

mutual

/-- The shapes of all parts of the piece. -/
def shapes : Piece → List Shape
  | .part shape => [shape]
  | .maybe row => shapesOf row

def shapesOf : List Piece → List Shape
  | [] => []
  | piece :: row => piece.shapes ++ shapesOf row

end

theorem Matches.shape (matched : Matches row nodes) :
    ∀ node ∈ nodes, ∃ shape ∈ shapesOf row, shape.Holds node := by
  induction matched with
  | nil => simp
  | part holds _ ih =>
    refine List.forall_mem_cons.mpr ⟨⟨_, by simp [shapesOf, shapes], holds⟩, fun node member => ?_⟩
    obtain ⟨shape, among, holds⟩ := ih node member
    exact ⟨shape, by simp [shapesOf, among], holds⟩
  | skip _ ih =>
    intro node member
    obtain ⟨shape, among, holds⟩ := ih node member
    exact ⟨shape, by simp [shapesOf, among], holds⟩
  | take _ _ bodyIh restIh =>
    intro node member
    rcases List.mem_append.mp member with here | later
    · obtain ⟨shape, among, holds⟩ := bodyIh node here
      exact ⟨shape, by simp [shapesOf, shapes, among], holds⟩
    · obtain ⟨shape, among, holds⟩ := restIh node later
      exact ⟨shape, by simp [shapesOf, among], holds⟩

/-- Whether all parts of the row are of the sorts, by themselves or in lists. -/
def consistsOf (sorts : List NodeSort) (row : List Piece) : Bool :=
  (shapesOf row).all fun shape => (shape.sorts ++ shape.items).all (· ∈ sorts)

/-- Whether no part of the row is of the sorts, by itself or in a list. -/
def lacks (sorts : List NodeSort) (row : List Piece) : Bool :=
  (shapesOf row).all fun shape => (shape.sorts ++ shape.items).all (· ∉ sorts)

theorem Matches.sort_of_consistsOf (sorts : List NodeSort) (matched : Matches row nodes)
    (all : consistsOf sorts row) :
    ∀ item ∈ nodes.flatMap Node.items, ∃ sort ∈ sorts, sort.Holds item := by
  intro item member
  obtain ⟨node, present, inside⟩ := List.mem_flatMap.mp member
  obtain ⟨shape, known, holds⟩ := matched.shape node present
  simp only [consistsOf, List.all_eq_true, decide_eq_true_eq] at all
  obtain ⟨sort, among, holds⟩ := holds.items item inside
  exact ⟨sort, all shape known sort among, holds⟩

/-! ### How many there are -/

/-- The number of parts that are never missing. -/
def solidCount : List Piece → Nat
  | [] => 0
  | .part _ :: row => solidCount row + 1
  | .maybe _ :: row => solidCount row

theorem Matches.solidCount_le (matched : Matches row nodes) : solidCount row ≤ nodes.length := by
  induction matched with
  | nil => simp [solidCount]
  | part _ _ ih => simpa [solidCount] using ih
  | skip _ ih => simpa [solidCount] using ih
  | take _ _ _ ih =>
    simp only [solidCount, List.length_append]
    exact Nat.le_add_left_of_le ih

/-! ### Items -/

mutual

/-- The sorts of the nodes for the piece and of the items of lists among them, without tokens. -/
def itemSorts : Piece → List NodeSort
  | .part shape => shape.sorts.filter (!·.isToken) ++ shape.items
  | .maybe row => itemSortsOf row

def itemSortsOf : List Piece → List NodeSort
  | [] => []
  | piece :: row => piece.itemSorts ++ itemSortsOf row

end

theorem itemSortsOf_append (front rest : List Piece) :
    itemSortsOf (front ++ rest) = itemSortsOf front ++ itemSortsOf rest := by
  induction front with
  | nil => rfl
  | cons piece front ih => simp [itemSortsOf, ih]

/-- The nodes without tokens and with the items of lists in place of the lists. -/
def itemsOf (nodes : List Node) : List Node := (nodes.filter (!·.isToken)).flatMap Node.items

theorem itemsOf_append (front rest : List Node) :
    itemsOf (front ++ rest) = itemsOf front ++ itemsOf rest := by
  simp [itemsOf]

theorem words_of_isToken (token : node.isToken) : node.words = [] := by
  cases node <;> simp_all [Node.isToken, Node.tokenKind?]

@[simp] theorem words_flatMap_items (nodes : List Node) :
    words (nodes.flatMap Node.items) = words nodes := by
  induction nodes with
  | nil => rfl
  | cons node nodes ih => simp [ih, Node.words_items]

@[simp] theorem words_itemsOf (nodes : List Node) : words (itemsOf nodes) = words nodes := by
  induction nodes with
  | nil => rfl
  | cons node nodes ih =>
    rw [← List.singleton_append, itemsOf_append, words_append, ih, words_append]
    by_cases token : node.isToken
    · simp [itemsOf, token, words_of_isToken token]
    · simp [itemsOf, token, Node.words_items]

theorem Matches.items (matched : Matches row nodes) :
    ∀ item ∈ itemsOf nodes, ∃ sort ∈ itemSortsOf row, sort.Holds item := by
  induction matched with
  | nil => simp [itemsOf]
  | @part shape node row nodes holds rest ih =>
    intro item member
    rw [← List.singleton_append, itemsOf_append] at member
    rcases List.mem_append.mp member with here | later
    · suffices ∃ sort ∈ itemSorts (.part shape), sort.Holds item by
        obtain ⟨sort, among, holds⟩ := this
        exact ⟨sort, by simp [itemSortsOf, among], holds⟩
      cases holds with
      | @single sort node among holds =>
        cases token : sort.isToken
        · simp [itemsOf, holds.isToken, token, holds.items] at here
          exact ⟨sort, by simp [itemSorts, among, token], here ▸ holds⟩
        · simp [itemsOf, holds.isToken, token] at here
      | list rule some all =>
        simp [itemsOf, Node.isToken, Node.tokenKind?, Node.items] at here
        obtain ⟨sort, among, holds⟩ := all item here
        exact ⟨sort, by simp [itemSorts, among], holds⟩
    · obtain ⟨sort, among, holds⟩ := ih item later
      exact ⟨sort, by simp [itemSortsOf, among], holds⟩
  | skip _ ih =>
    intro item member
    obtain ⟨sort, among, holds⟩ := ih item member
    exact ⟨sort, by simp [itemSortsOf, among], holds⟩
  | take _ _ bodyIh restIh =>
    intro item member
    rw [itemsOf_append] at member
    rcases List.mem_append.mp member with here | later
    · obtain ⟨sort, among, holds⟩ := bodyIh item here
      exact ⟨sort, by simp [itemSortsOf, itemSorts, among], holds⟩
    · obtain ⟨sort, among, holds⟩ := restIh item later
      exact ⟨sort, by simp [itemSortsOf, among], holds⟩

theorem Matches.items_among (sorts : List NodeSort) (matched : Matches row nodes)
    (within : (itemSortsOf row).all (· ∈ sorts)) :
    ∀ item ∈ itemsOf nodes, ∃ sort ∈ sorts, sort.Holds item := by
  intro item member
  obtain ⟨sort, among, holds⟩ := matched.items item member
  exact ⟨sort, by simpa using List.all_eq_true.mp within sort among, holds⟩

/-- A first part that is no token is the first item. -/
theorem Matches.items_of_part {sorts : List NodeSort}
    (matched : Matches (.part (.of sorts) :: row) nodes) (solid : sorts.all (!·.isToken)) :
    ∃ first rest, nodes = first :: rest ∧ itemsOf nodes = first :: itemsOf rest ∧
      (∃ sort ∈ sorts, sort.Holds first) ∧ Matches row rest := by
  cases matched with
  | @part _ first _ rest holds later =>
    obtain ⟨sort, among, holds⟩ := Shape.holds_of.mp holds
    have word : sort.isToken = false := by simpa using List.all_eq_true.mp solid sort among
    refine ⟨first, rest, rfl, ?_, ⟨sort, among, holds⟩, later⟩
    simp [itemsOf, holds.isToken, word, holds.items]

theorem Matches.items_of_token {kind : Kind}
    (matched : Matches (.part (.of [.token kind]) :: row) nodes) :
    ∃ rest, itemsOf nodes = itemsOf rest ∧ Matches row rest := by
  cases matched with
  | @part _ node _ rest holds later =>
    obtain ⟨sort, among, holds⟩ := Shape.holds_of.mp holds
    obtain rfl := List.mem_singleton.mp among
    exact ⟨rest, by simp [itemsOf, holds.isToken, NodeSort.isToken], later⟩

theorem Matches.items_eq_nil (matched : Matches row nodes) (silent : itemSortsOf row = []) :
    itemsOf nodes = [] := by
  refine List.eq_nil_iff_forall_not_mem.mpr fun item member => ?_
  obtain ⟨sort, among, -⟩ := matched.items item member
  rw [silent] at among
  cases among

theorem Matches.items_le_one {sorts : List NodeSort}
    (matched : Matches (.maybe [.part (.of sorts)] :: row) nodes) (silent : itemSortsOf row = []) :
    (itemsOf nodes).length ≤ 1 := by
  cases matched with
  | skip rest => simp [rest.items_eq_nil silent]
  | take body rest =>
    cases body with
    | @part _ node _ _ holds nothing =>
      cases nothing
      obtain ⟨sort, -, holds⟩ := Shape.holds_of.mp holds
      rw [itemsOf_append, rest.items_eq_nil silent, List.append_nil]
      cases token : node.isToken <;> simp [itemsOf, token, holds.items]

/-- Tokens alone have no words. -/
theorem Matches.words_eq_nil (matched : Matches row nodes) (silent : itemSortsOf row = []) :
    words nodes = [] := by
  rw [← words_itemsOf, matched.items_eq_nil silent, words_nil]

/-! ### Rows that say more -/

mutual

/-- Whether all nodes for the other piece are nodes for the piece. -/
def covers : Piece → Piece → Bool
  | .part shape, .part other => other.within shape
  | .part _, .maybe _ => false
  | .maybe row, .part other => rowCovers row [.part other]
  | .maybe row, .maybe other => rowCovers row other

/-- Whether all nodes for the other row are nodes for the row, as far as can be told by passing
over some of what may be missing in the row. -/
def rowCovers : List Piece → List Piece → Bool
  | [], other => other.isEmpty
  | piece :: row, [] => piece.isOptional && rowCovers row []
  | piece :: row, first :: other =>
    (piece.covers first && rowCovers row other) ||
      piece.isOptional && rowCovers row (first :: other)

end

mutual

theorem matches_of_covers : (piece : Piece) → {other : Piece} → {nodes : List Node} →
    piece.covers other → Matches [other] nodes → Matches [piece] nodes
  | .part shape, .part other, nodes, covers, matched => by
    cases matched with
    | part holds rest => exact .part (holds.within covers) rest
  | .maybe row, .part other, nodes, covers, matched => by
    simpa using Matches.take (matches_of_rowCovers row covers matched) .nil
  | .maybe row, .maybe other, nodes, covers, matched => by
    cases matched with
    | skip rest => exact .skip rest
    | take body rest => exact .take (matches_of_rowCovers row covers body) rest

theorem matches_of_rowCovers : (row : List Piece) → {other : List Piece} → {nodes : List Node} →
    rowCovers row other → Matches other nodes → Matches row nodes
  | [], other, nodes, covers, matched => by
    rwa [List.isEmpty_iff.mp covers] at matched
  | piece :: row, [], nodes, covers, matched => by
    simp only [rowCovers, Bool.and_eq_true] at covers
    cases piece with
    | part shape => exact absurd covers.1 (by simp [isOptional])
    | maybe inner => exact .skip (matches_of_rowCovers row covers.2 matched)
  | piece :: row, first :: other, nodes, covers, matched => by
    simp only [rowCovers, Bool.or_eq_true, Bool.and_eq_true] at covers
    rcases covers with ⟨here, later⟩ | ⟨optional, later⟩
    · obtain ⟨front, rest, rfl, head, tail⟩ := matches_append [first] matched
      exact (matches_of_covers piece here head).append (matches_of_rowCovers row later tail)
    · cases piece with
      | part shape => exact absurd optional (by simp [isOptional])
      | maybe inner => exact .skip (matches_of_rowCovers row later matched)

end

end Piece

end JavaFrontend
