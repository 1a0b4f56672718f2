import JavaFrontend.Proofs.Java.Chains
import JavaFrontend.Proofs.Parse.Forward
import JavaFrontend.Proofs.Place.Corners

/-!
The place of a parsed expression, from its first token on. Every rule for expressions begins with a
token or with another such rule, and so does what is made of it: it is where the first token is,
unless that is left out of its place.
-/

namespace JavaFrontend.Java

open OperandM Element JavaFrontend.Java.Reduction

variable {elements : List Element} {tokens inner others : List Token} {parts : Production}
  {nodes more : List Node} {node head : Node} {name : String} {first : Token}

/-! ### Places of tokens -/

/-- The places of the tokens, and the one that is no place at all. -/
def placesOf (tokens : List Token) : List Position := default :: tokens.map (·.position)

theorem placesOf_subset (inside : inner ⊆ tokens) : placesOf inner ⊆ placesOf tokens :=
  List.cons_subset_cons _ (List.map_subset _ inside)

theorem position_mem_placesOf {token : Token} (member : token ∈ tokens) :
    token.position ∈ placesOf tokens := .tail _ (List.mem_map_of_mem member)

theorem place?_ofToken (token : Token) :
    (Node.ofToken token).place? = some token.position ∧ (Node.ofToken token).begins = true := by
  unfold Node.ofToken
  split
  · exact ⟨rfl, rfl⟩
  · split <;> exact ⟨rfl, rfl⟩

/-- The node is at one of the tokens. -/
def AtTokens (tokens : List Token) (node : Node) : Prop := node.AllPlaced (· ∈ placesOf tokens)

theorem AtTokens.mono (within : AtTokens inner node) (inside : inner ⊆ tokens) :
    AtTokens tokens node :=
  fun item member place isPlace => placesOf_subset inside (within item member place isPlace)

theorem atTokens_ofToken {token : Token} (member : token ∈ tokens) :
    AtTokens tokens (.ofToken token) :=
  allPlaced_of_eq (position_mem_placesOf member) (place?_ofToken token).1 (items_ofToken token)

theorem atTokens_list {rule : String} {items : List Node}
    (all : ∀ item ∈ items, AtTokens tokens item) : AtTokens tokens (.list rule items) :=
  fun item member => placed_of_all (all item member)

/-! ### Beginning with a token -/

/-- What is made of tokens is where the first of them is, if it begins there, and otherwise where
another one is. -/
structure Starts (first : Token) (others : List Token) (node : Node) : Prop where
  closed : node.opens = false
  begun : ∀ place ∈ node.place?, node.begins = true → place = first.position
  behind : ∀ place ∈ node.place?, node.begins = false → place ∈ placesOf others

theorem Starts.mono (starts : Starts first inner node) (inside : inner ⊆ tokens) :
    Starts first tokens node :=
  ⟨starts.closed, starts.begun, fun place isPlace further =>
    placesOf_subset inside (starts.behind place isPlace further)⟩

theorem starts_ofToken (closed : first.kind ≠ .leftParen) (others : List Token) :
    Starts first others (.ofToken first) := by
  obtain ⟨place, begins⟩ := place?_ofToken first
  refine ⟨?_, fun _ same _ => Option.some.inj (same.symm.trans place), fun _ _ further => ?_⟩
  · unfold Node.ofToken
    split
    · rfl
    · split
      · rfl
      · simpa [Node.opens] using closed
  · rw [begins] at further
    cases further

/-- What is nowhere begins with any token. -/
theorem starts_of_none (none : node.place? = none) (closed : node.opens = false) (first : Token)
    (others : List Token) : Starts first others node where
  closed
  begun _ same := by simp [none] at same
  behind _ same := by simp [none] at same

/-- What a reduction makes begins with the token that its first operand begins with. -/
theorem Starts.of_headed (starts : Starts first inner head)
    (headed : Headed (· ∈ placesOf others) head node) : Starts first (inner ++ others) node := by
  have closed : node.opens = false := by
    by_contra opens
    have further := headed.opens (eq_true_of_ne_false opens)
    rw [starts.closed] at further
    cases further
  rcases headed.placed with ⟨place, begins⟩ | ⟨placed, begun⟩
  · refine ⟨closed, fun own isPlace begun => ?_, fun own isPlace further => ?_⟩
    · exact starts.begun own (place ▸ isPlace) (begins ▸ begun)
    · exact placesOf_subset (List.subset_append_left _ _)
        (starts.behind own (place ▸ isPlace) (begins ▸ further))
  · refine ⟨closed, fun own isPlace begins => ?_, fun own isPlace _ => ?_⟩
    · have opens := begun begins
      rw [starts.closed] at opens
      cases opens
    · exact placesOf_subset (List.subset_append_right _ _) (placed own isPlace)

/-! ### Rules that begin with a token -/

/-- What is known of what is made of the tokens. -/
structure Known (name : String) (tokens : List Token) (node : Node) : Prop where
  within : AtTokens tokens node
  corner : name ∈ corners → ∃ first others, tokens = first :: others ∧
    first.kind ≠ .endOfInput ∧ (first.kind ≠ .leftParen → Starts first others node)
  segment : name = "SimpleClassType" → ∃ segment, node = .type (.classType (.cons segment .nil))

theorem isCorner_repeated {body : List Element} (row : isCorner (.repeated body :: elements)) :
    ∃ name, body = [.rule name] ∧ name ∈ corners ∧ isCorner elements := by
  unfold isCorner at row
  split at row
  · next same => cases same
  · next same => cases same
  · next same =>
    cases same
    obtain ⟨known, rest⟩ := Bool.and_eq_true_iff.mp row
    exact ⟨_, rfl, mem_corners_of_contains known, rest⟩
  · cases row

/-- The first of the nodes begins with the first of the tokens, and the others are made of tokens
behind. -/
inductive Led : List Token → List Node → Prop where
  | intro {first : Token} {inner others : List Token} {head : Node} {more : List Node}
    (inside : first.kind ≠ .endOfInput)
    (starts : first.kind ≠ .leftParen → Starts first inner head)
    (here : AtTokens (first :: inner) head) (behind : ∀ node ∈ more, AtTokens others node) :
    Led (first :: (inner ++ others)) (head :: more)

theorem Led.exists_first (led : Led tokens nodes) :
    ∃ first others, tokens = first :: others ∧ first.kind ≠ .endOfInput := by
  cases led with
  | intro inside => exact ⟨_, _, rfl, inside⟩

/-- The nodes of a row are at its tokens. -/
theorem Made.atTokens (made : Made Known elements tokens parts nodes) :
    ∀ node ∈ nodes, AtTokens tokens node :=
  made.fine_of_leaves (fun _ => atTokens_ofToken) (fun _ _ => atTokens_list)
    fun _ _ _ _ inside known => known.within.mono inside.subset

/-- And so they are for a row that begins with a token or with one of the names. -/
theorem Made.led (made : Made Known elements tokens parts nodes) (row : isCorner elements) :
    Led tokens nodes := by
  induction made with
  | nil | absent | present => cases row
  | @token kind elements tokens _ nodes token same rest ih =>
    subst same
    rw [← List.nil_append tokens]
    exact .intro (by simpa [isCorner] using row) (fun closed => starts_ofToken closed [])
      (atTokens_ofToken List.mem_cons_self) rest.atTokens
  | rule known rest ih =>
    obtain ⟨first, others, rfl, inside, starts⟩ := known.corner (mem_corners_of_contains row)
    exact .intro inside starts known.within rest.atTokens
  | never body rest ih =>
    obtain ⟨name, -, -, row⟩ := isCorner_repeated row
    exact ih row
  | @times body elements tokens _ nodes name element occurrences some each rest eachIh _ =>
    obtain ⟨corner, rfl, among, -⟩ := isCorner_repeated row
    have all := (Made.times name element occurrences some each .nil).atTokens
    obtain ⟨occurrence, later, rfl⟩ := List.exists_cons_of_ne_nil some
    obtain ⟨first, inner, same, inside⟩ := (eachIh occurrence List.mem_cons_self
      (List.contains_iff_mem.mpr (mem_map_code_iff.mpr among))).exists_first
    have front : (occurrence :: later).flatMap (·.1) = first :: (inner ++ later.flatMap (·.1)) := by
      rw [List.flatMap_cons, same, List.cons_append]
    rw [front] at all ⊢
    rw [List.append_nil] at all
    exact .intro inside (fun _ => starts_of_none rfl rfl _ _) (all _ List.mem_cons_self)
      rest.atTokens

/-! ### Rules of their own form -/

section Forms

variable {Knows : String → List Token → Node → Prop}

/-- The parameters of a lambda begin with a token if that is no parenthesis. -/
theorem starts_lambdaParameters (made : Made Knows elements (first :: others) parts nodes)
    (row : beginsWithToken .leftParen elements ∨
      isLone elements ∧ beginsWithToken .identifier elements)
    (closed : first.kind ≠ .leftParen)
    (ran : (lambdaParameters.run ⟨name, nodes⟩).1 = .ok node) : Starts first others node := by
  generalize same : first :: others = tokens at made
  cases made with
  | token token kind rest =>
    obtain ⟨rfl, rfl⟩ := List.cons.inj same
    rcases row with opens | ⟨lone, isName⟩
    · exact absurd (kind.trans (eq_of_beq opens)) closed
    · cases rest with
      | nil =>
        rw [Node.ofToken, if_pos (kind.trans (eq_of_beq isName))] at ran
        cases ran
        exact ⟨rfl, fun place isPlace _ => (Option.some.inj isPlace).symm,
          fun _ _ begins => Bool.noConfusion begins⟩
      | _ => cases lone
  | _ => rcases row with opens | ⟨-, isName⟩ <;> contradiction

/-- A row with a name of the source is no name of a rule alone. -/
theorem Made.mem_parts_of_isName (made : Made Knows elements tokens parts nodes)
    (named : elements.any isName) : .token .identifier ∈ parts := by
  induction made with
  | nil => cases named
  | token _ _ _ ih =>
    rcases Bool.or_eq_true_iff.mp named with here | later
    · exact eq_of_beq here ▸ .head _
    · exact .tail _ (ih later)
  | rule _ _ ih | times _ _ _ _ _ _ _ ih => exact .tail _ (ih named)
  | absent _ _ ih | never _ _ ih => exact ih named
  | present _ _ _ ih => exact List.mem_append_right _ (ih named)

theorem segment_of_head (made : Made Known elements tokens parts nodes)
    (row : beginsWith "SimpleClassType" elements) :
    ∃ segment more, nodes = .type (.classType (.cons segment .nil)) :: more := by
  cases made with
  | rule known =>
    obtain rfl := code_inj (eq_of_beq row)
    obtain ⟨segment, rfl⟩ := known.segment rfl
    exact ⟨segment, _, rfl⟩
  | _ => cases row

theorem type?_ofToken (token : Token) : type? (.ofToken token) = none := by
  unfold Node.ofToken
  split
  · rfl
  · split <;> rfl

theorem isOf_annotation : isOf [.annotationUse] "Annotation" := by decide

theorem isOf_expression : isOf NodeSort.expressions "Expression" := by decide

/-- A primitive type begins with a token or an annotation, and there is no other type in it. -/
theorem plain_of_made (made : Made (fun name _ node => Typed name node) elements tokens parts nodes)
    (row : isLone elements ∨ beginsWith "Annotation" elements ∧
      ∀ name ∈ bodyNames elements, isOf [.annotationUse, .primitiveType] name) :
    (∀ head ∈ nodes.head?, head.items ≠ [] ∧ type? head = none) ∧ ∀ node ∈ nodes, IsPlain node := by
  constructor
  · cases made with
    | token token =>
      rintro _ ⟨⟩
      exact ⟨by simp [items_ofToken], type?_ofToken token⟩
    | rule typed =>
      rcases row with lone | ⟨begins, -⟩
      · cases lone
      obtain rfl := code_inj (eq_of_beq begins)
      rintro _ ⟨⟩
      obtain ⟨sort, listed, holds⟩ := typed.sort isOf_annotation
      cases List.mem_singleton.mp listed
      cases holds
      exact ⟨List.cons_ne_nil _ _, rfl⟩
    | nil => exact nofun
    | _ => rcases row with lone | ⟨begins, -⟩ <;> contradiction
  · refine made.fine (fun token type same => ?_) (fun rule items _ type same => ?_) ?_
    · rw [type?_ofToken] at same
      cases same
    · cases same
    · intro name among _ node typed type same
      have known : isOf [.annotationUse, .primitiveType] name := by
        rcases row with lone | ⟨-, known⟩
        · unfold isLone at lone
          split at lone
          · cases among
          · cases lone
        · exact known name among
      obtain ⟨sort, listed, holds⟩ := typed.sort known
      simp only [List.mem_cons, List.not_mem_nil, or_false] at listed
      rcases listed with rfl | rfl
      · cases holds
        cases same
      · cases holds
        cases same
        exact ⟨_, _, _, rfl⟩

end Forms

/-! ### All rules -/

section Rules

variable {alternative : Alternative} {reduction : OperandM Node}
  (member : alternative ∈ Grammar.rules)
  (made : Made (fun name tokens node => Typed name node ∧ Known name tokens node)
    alternative.elements tokens parts nodes)
include member made

theorem led_of_made (corner : alternative.name ∈ corners) : Led tokens nodes :=
  (made.mono fun _ _ _ _ both => And.right both).led
    (corner_rows member (mem_map_code_iff.mpr corner))

/-- What a reduction leaves of the place of the first operand. -/
theorem headed_of_made (found : table.lookup alternative.name = some reduction)
    (leading : alternative.name ∈ leadingNames)
    (split : nodes = head :: more) (behind : ∀ node ∈ more, AtTokens others node)
    (ran : (reduction.run ⟨alternative.name, nodes⟩).1 = .ok node) :
    Headed (· ∈ placesOf others) head node := by
  subst split
  rcases List.mem_cons.mp leading with same | leading
  · have row := primitiveType_rows member (congrArg code same)
    rw [same] at found
    cases found
    obtain ⟨first, plain⟩ := plain_of_made (made.mono fun _ _ _ _ both => And.left both) row
    obtain ⟨some, other⟩ := first head rfl
    exact (headed_primitiveType some other).of_run
      (fun node among => ⟨behind node among, plain node (.tail _ among)⟩) ran
  rcases List.mem_cons.mp leading with same | headed
  · have row := classType_rows member (congrArg code same)
    rw [same] at found
    cases found
    obtain ⟨segment, _, split⟩ :=
      segment_of_head (made.mono fun _ _ _ _ both => And.right both) row
    obtain ⟨rfl, rfl⟩ := List.cons.inj split
    exact headed_classType.of_run behind ran
  · exact headed_of_run behind _ headed reduction found ran

/-- What is made of the operands of a rule begins with its first token. -/
theorem corner_of_made (found : table.lookup alternative.name = some reduction)
    (ran : (reduction.run ⟨alternative.name, nodes⟩).1 = .ok node)
    (typed : Typed alternative.name node) (corner : alternative.name ∈ corners) :
    ∃ first others, tokens = first :: others ∧ first.kind ≠ .endOfInput ∧
      (first.kind ≠ .leftParen → Starts first others node) := by
  cases led_of_made member made corner with
  | intro inside starts here behind =>
  refine ⟨_, _, rfl, inside, fun closed => ?_⟩
  rcases List.mem_append.mp corner with leading | own
  · exact (starts closed).of_headed (headed_of_made member made found leading rfl behind ran)
  rcases List.mem_cons.mp own with same | own
  · have row := lambda_rows member (congrArg code same)
    rw [same] at found
    cases found
    exact starts_lambdaParameters made row closed ran
  rcases List.mem_cons.mp own with same | passing
  · rw [same] at typed
    obtain ⟨sort, listed, holds⟩ := typed.sort isOf_annotation
    cases List.mem_singleton.mp listed
    cases holds
    exact starts_of_none rfl rfl _ _
  · obtain ⟨front, back, split, -⟩ := List.lookup_eq_some_iff.mp found
    exact absurd (by simp [split]) (reduction_forms.1 _ passing)

/-- And it is at its tokens. -/
theorem atTokens_of_made (found : table.lookup alternative.name = some reduction)
    (ran : (reduction.run ⟨alternative.name, nodes⟩).1 = .ok node)
    (typed : Typed alternative.name node) : AtTokens tokens node := by
  obtain ⟨front, back, split, -⟩ := List.lookup_eq_some_iff.mp found
  have listed : alternative.name ∈ table.map (·.1) := by simp [split]
  rcases reduction_forms.2.1 _ listed with among | bare
  · rcases List.mem_append.mp (mem_map_code_iff.mp among) with leading | placed
    · have corner : alternative.name ∈ corners := List.mem_append_left _ leading
      cases led_of_made member made corner with
      | intro inside starts here behind =>
        have headed := headed_of_made member made found leading rfl behind ran
        refine allPlaced_of_typed corner typed ((headed.mono fun place among => ?_).isPlaced
          (here.mono (List.subset_append_left _ _)))
        exact placesOf_subset (List.subset_cons_of_subset _ (List.subset_append_right _ _)) among
    · exact allPlaced_of_run (.head _) (made.mono fun _ _ _ _ both => And.right both).atTokens _
        placed reduction found ran
  · obtain ⟨shape, known, bare⟩ := (Option.any_eq_true _ _).mp bare
    exact allPlaced_of_bare (typed shape known) bare

theorem known_of_made (reduces : Reduces alternative.name parts nodes node)
    (typed : Typed alternative.name node) : Known alternative.name tokens node := by
  rcases reduces.cases with ⟨rfl, target, rfl⟩ | ⟨reduction, found, ran⟩
  · have known := made.mono fun _ _ _ _ both => And.right both
    refine ⟨known.atTokens node (List.mem_singleton_self _), fun corner => ?_, fun same => ?_⟩
    · cases led_of_made member made corner with
      | intro inside starts =>
        exact ⟨_, _, rfl, inside, fun closed =>
          (starts closed).mono (List.subset_append_left _ _)⟩
    · have named := simpleClassType_rows member (congrArg code same)
      exact absurd (known.mem_parts_of_isName named) (by simp)
  · refine ⟨atTokens_of_made member made found ran typed,
      corner_of_made member made found ran typed, fun same => ?_⟩
    rw [same] at found
    cases found
    exact segment_of_run ran

end Rules

/-! ### Texts -/

/-- No token of a text is at no place. -/
theorem default_ne_position {source : String} {later : List Token}
    (waiting : (Lexer.ofString source).pending = first :: later) : default ≠ first.position := by
  have member : first ∈ (Lexer.ofString source).tokens :=
    (List.mem_filter.mp (waiting ▸ List.mem_cons_self :
      first ∈ (Lexer.ofString source).pending)).1
  rcases (Lexer.ofString source).sorted_tokens.1 first member with here | behind
  · rw [here]
    exact nofun
  · have line : (Lexer.ofString source).position.line ≤ first.position.line := by
      rcases behind with less | ⟨same, -⟩
      · exact Nat.le_of_lt less
      · exact Nat.le_of_eq same
    intro same
    rw [← same] at line
    exact absurd line (Nat.not_succ_le_zero 0)

theorem Parses.tokens_of_fragment {expansion : Expansion} {grammar : JavaFrontend.Grammar}
    {parser : Parser Node} (parses : Parses (.rule name) expansion grammar parser)
    (part : name ≠ "CompilationUnit") (built : parser.Builds [.rule grammar.start] tokens [node]) :
    ∃ inner finish, tokens = inner ++ [finish] ∧ parser.Builds [.rule name] inner [node] := by
  obtain ⟨finish, operands, -, -, ⟨-, -, units⟩ | ⟨_, inner, operand, rfl, -⟩⟩ :=
    parses.goal_of_builds built
  · exact absurd (List.singleton_inj.mp units) part
  · exact ⟨inner, finish, rfl, parses.fragment_of_builds part built⟩

/-- An expression that is parsed from a text that begins with no parenthesis is where its first
token is if and only if nothing in front is left out of its place: no operator, no annotation, no
outer part of a creation and no `new` of an array. -/
theorem place_eq_first_iff {parser : Parser Node} {typeContext : Bool} {source : String}
    {later : List Token} {root : Node} (made : fragmentParser "Expression" = .ok parser)
    (waiting : (Lexer.ofString source).pending = first :: later)
    (closed : first.kind ≠ .leftParen)
    (parsed : ({ parser with typeContext } : Parser Node).parse (.ofString source) = .ok root) :
    ∃ tree, root.expr? = some tree ∧ (tree.place = first.position ↔ tree.begins) := by
  unfold fragmentParser at made
  cases built : Grammar.forGoal "Expression" with
  | error reason =>
    rw [built] at made
    cases made
  | ok grammar =>
    rw [built] at made
    cases made
    obtain ⟨expansion, parses⟩ := parses_of_build (.fragment "Expression") built typeContext
    obtain ⟨tape, splits, tokens, -, forward, front, fit, builds⟩ :=
      parses.builds_of_tapes (Tape.Forward source) (.start false rfl rfl)
        (fun _ _ _ _ forward ran => forward.next ran) (fun _ forward => forward.rewind) parsed
    obtain ⟨inner, finish, rfl, inside⟩ := parses.tokens_of_fragment (by decide) builds
    have row : RowMade (fun name tokens node => Typed name node ∧ Known name tokens node)
        expansion.repetitions [.rule "Expression"] inner [root] :=
      parses.row_of_typed
        (fun _ member _ _ _ _ _ made reduces typed => known_of_made member made reduces typed)
        (List.forall_mem_append.mp fit).1 inside
    cases row with
    | cons head tail =>
    cases tail
    cases head with
    | rule holds =>
    obtain ⟨typed, known⟩ := holds (mem_map_code_iff.mp (by decide))
    obtain ⟨sort, listed, shape⟩ := typed.sort isOf_expression
    obtain ⟨tree, isTree, -⟩ := chooses_expr.chosen shape (.tail _ listed)
    obtain ⟨own, others, rfl, plain, starts⟩ :=
      known.corner (mem_map_code_iff.mp (by decide))
    rw [List.append_nil, List.cons_append] at front
    obtain ⟨place, paren, behind⟩ := forward.places waiting front plain
    have starts := starts (mt paren closed)
    obtain ⟨isPlace, isBegins, -⟩ := place?_of_expr? isTree
    refine ⟨tree, isTree, fun same => ?_, fun begins => ?_⟩
    · by_contra further
      have among := starts.behind _ isPlace (isBegins.trans (eq_false_of_ne_true further))
      rw [same] at among
      rcases List.mem_cons.mp among with nowhere | later
      · exact default_ne_position waiting nowhere.symm
      · obtain ⟨token, member, again⟩ := List.mem_map.mp later
        exact (behind token (List.mem_append_left _ member)).ne (place.trans again.symm)
    · exact (starts.begun _ isPlace (isBegins.trans begins)).trans place

theorem begins_of_grouped {tree : Expr} (grouped : Grouped tree) : tree.begins := by
  induction grouped with
  | name => rfl
  | binary _ _ _ _ _ ih => exact ih

/-- A difference of names is where its first token is. -/
theorem place_of_difference : ∃ parser, fragmentParser "Expression" = .ok parser ∧
    ∀ typeContext, ∃ first later root tree, (Lexer.ofString "a - b").pending = first :: later ∧
      first.kind ≠ .leftParen ∧
      ({ parser with typeContext } : Parser Node).parse (.ofString "a - b") = .ok root ∧
      root.expr? = some tree ∧ tree.place = first.position := by
  obtain ⟨grammar, built⟩ := Grammar.exists_build (.fragment "Expression") (by decide)
  have made : fragmentParser "Expression" = .ok (.ofBuilder grammar (builder grammar)) := by
    rw [fragmentParser, Grammar.forGoal, built]
    rfl
  have text : chainText "a" [(.minus, "b")] = "a - b" := by decide
  obtain ⟨tokens, place, names, -, chain, waiting⟩ :=
    exists_chain (show IsRow "a" [(.minus, "b")] by decide)
  rw [text] at waiting
  refine ⟨_, made, fun typeContext => ?_⟩
  obtain ⟨root, tree, parsed, isTree, grouped, -, -⟩ :=
    parse_of_isChain built typeContext chain waiting
  obtain ⟨first, later, rfl, closed⟩ : ∃ first later, tokens = first :: later ∧
      first.kind ≠ .leftParen := by
    generalize names.map QualifiedName.ofIdentifier = operands,
      [((Kind.minus, "b") : Kind × String)].map (·.1) = operators at chain
    cases chain with
    | name isName | cons isName => exact ⟨_, _, rfl, by simp [isName]⟩
  obtain ⟨_, isTree', placed⟩ := place_eq_first_iff made waiting closed parsed
  cases isTree.symm.trans isTree'
  exact ⟨first, _, root, tree, waiting, closed, parsed, isTree,
    placed.mpr (begins_of_grouped grouped)⟩

end JavaFrontend.Java
