import JavaFrontend.Proofs.Reduction.Rows

/-!
A logic for reductions. `Makes row before step result` says what a reduction comes to when the
operands that are left match the row and those before them had some words: it makes a node of the
result's shape, and the node has the words of all the operands. There is one rule for each way of
asking for an operand. The rule consumes the piece of the row that answers, and hands its words on.
-/

namespace JavaFrontend

open Java Piece

namespace NodeSort

/-! ### Sorts that stand for one another -/

/-- What may stand where an expression may. -/
def expressions : List NodeSort := [.expr, .creation, .arrayInitializer, .name, .literal]

def types : List NodeSort := [.primitiveType, .classType, .arrayType]

def modifiers : List NodeSort := [.modifier, .annotationUse]

end NodeSort

namespace Piece

abbrev one (sorts : List NodeSort) : Piece := .part (.of sorts)

abbrev token (kind : Kind) : Piece := one [.token kind]

/-- A token of one of the kinds. -/
abbrev tokens (kinds : List Kind) : Piece := one (kinds.map .token)

abbrev opt (sorts : List NodeSort) : Piece := .maybe [one sorts]

/-- Nothing, or a list. -/
abbrev many (sorts : List NodeSort) : Piece := .maybe [.part (.listOf sorts)]

end Piece

namespace OperandM

/-! ### Which nodes are selected -/

/-- Of the nodes by themselves exactly those of the sorts are selected, without loss of a word, and
no list is. -/
structure Chooses {α : Type} [HasWords α] (sorts : List NodeSort) (select : Node → Option α) :
    Prop where
  single : ∀ {sort node}, sort.Holds node →
    if sort ∈ sorts then ∃ value, select node = some value ∧ words value = node.words
    else select node = none
  list : ∀ rule items, select (.list rule items) = none

section Selecting

variable {α : Type} [HasWords α] {sorts : List NodeSort} {select : Node → Option α}
  {shape : Shape} {sort : NodeSort} {node : Node} {nodes : List Node} {row : List Piece}

theorem Chooses.chosen (chooses : Chooses sorts select) (holds : sort.Holds node)
    (among : sort ∈ sorts) : ∃ value, select node = some value ∧ words value = node.words := by
  have single := chooses.single holds
  rwa [if_pos among] at single

theorem Chooses.other (chooses : Chooses sorts select) (holds : sort.Holds node)
    (apart : sort ∉ sorts) : select node = none := by
  have single := chooses.single holds
  rwa [if_neg apart] at single

theorem Chooses.of_within (chooses : Chooses sorts select) (within : shape.within (.of sorts))
    (holds : shape.Holds node) : ∃ value, select node = some value ∧ words value = node.words := by
  obtain ⟨sort, among, holds⟩ := Shape.holds_of.mp (holds.within within)
  exact chooses.chosen holds among

theorem Chooses.all (chooses : Chooses sorts select) (nodes : List Node)
    (all : ∀ item ∈ nodes, ∃ sort ∈ sorts, sort.Holds item) :
    ∃ values, nodes.mapM select = some values ∧ words values = words nodes := by
  induction nodes with
  | nil => exact ⟨[], rfl, rfl⟩
  | cons node nodes ih =>
    obtain ⟨⟨sort, among, holds⟩, rest⟩ := List.forall_mem_cons.mp all
    obtain ⟨value, chosen, same⟩ := chooses.chosen holds among
    obtain ⟨values, others, later⟩ := ih rest
    exact ⟨value :: values, by simp [List.mapM_cons, chosen, others], by simp [same, later]⟩

theorem Chooses.words_filterMap (chooses : Chooses sorts select) (nodes : List Node)
    (all : ∀ node ∈ nodes, ∃ sort : NodeSort, sort.Holds node ∧ (sort ∈ sorts ∨ node.words = [])) :
    words (nodes.filterMap select) = words nodes := by
  induction nodes with
  | nil => rfl
  | cons node nodes ih =>
    obtain ⟨⟨sort, holds, known⟩, rest⟩ := List.forall_mem_cons.mp all
    by_cases among : sort ∈ sorts
    · obtain ⟨value, chosen, same⟩ := chooses.chosen holds among
      simp [chosen, same, ih rest]
    · simp [chooses.other holds among, known.resolve_left among, ih rest]

theorem Chooses.filterMap_eq_nil (chooses : Chooses sorts select) {others : List NodeSort}
    (apart : others.all (· ∉ sorts)) (all : ∀ node ∈ nodes, ∃ sort ∈ others, sort.Holds node) :
    nodes.filterMap select = [] := by
  refine List.filterMap_eq_nil_iff.mpr fun node member => ?_
  obtain ⟨sort, among, holds⟩ := all node member
  exact chooses.other holds (by simpa using List.all_eq_true.mp apart sort among)

/-- Nothing that the row may begin with is selected. -/
theorem Chooses.none_of_avoids (chooses : Chooses sorts select) (avoid : avoids sorts row)
    (matched : Matches row nodes) : nodes.head?.bind select = none := by
  cases nodes with
  | nil => rfl
  | cons node nodes =>
    obtain ⟨shape, first, holds⟩ := matched.first
    simp only [avoids, List.all_eq_true, decide_eq_true_eq] at avoid
    cases holds with
    | single among holds =>
      exact chooses.other holds (avoid shape first _ (List.mem_append_left _ among))
    | list rule => exact chooses.list rule _

theorem Chooses.none_of_lacks (chooses : Chooses sorts select) (lack : lacks sorts row)
    (matched : Matches row nodes) : ∀ node ∈ nodes, select node = none := by
  intro node member
  obtain ⟨shape, among, holds⟩ := matched.shape node member
  simp only [lacks, List.all_eq_true, decide_eq_true_eq] at lack
  cases holds with
  | single known holds =>
    exact chooses.other holds (lack shape among _ (List.mem_append_left _ known))
  | list rule => exact chooses.list rule _

/-- Nor is a list of such nodes. -/
theorem Chooses.no_items_of_avoids (chooses : Chooses sorts select) (avoid : avoids sorts row)
    (matched : Matches row nodes) : nodes.head?.bind (itemsIf select) = none := by
  cases nodes with
  | nil => rfl
  | cons node nodes =>
    obtain ⟨shape, first, holds⟩ := matched.first
    simp only [avoids, List.all_eq_true, decide_eq_true_eq] at avoid
    cases holds with
    | single among holds =>
      have other := chooses.other holds (avoid shape first _ (List.mem_append_left _ among))
      simp [itemsIf, holds.items, other]
    | list rule some all =>
      obtain ⟨item, items, rfl⟩ := List.exists_cons_of_ne_nil some
      obtain ⟨sort, among, holds⟩ := all item List.mem_cons_self
      have other := chooses.other holds (avoid shape first _ (List.mem_append_right _ among))
      simp [itemsIf, Node.items, other]

theorem Chooses.words_filterMap_of_all (chooses : Chooses sorts select)
    (all : ∀ node ∈ nodes, ∃ sort ∈ sorts, sort.Holds node) :
    words (nodes.filterMap select) = words nodes :=
  chooses.words_filterMap nodes fun node member => by
    obtain ⟨sort, among, holds⟩ := all node member
    exact ⟨sort, holds, .inl among⟩

/-- Of a row in two sections, each of which has only what one of two selects, the two together
select all. -/
theorem Chooses.split {β : Type} [HasWords β] {others : List NodeSort} {choose : Node → Option β}
    (front : List Piece) {back : List Piece} (ahead : Chooses sorts select)
    (behind : Chooses others choose)
    (apart : others.all (· ∉ sorts)) (apart' : sorts.all (· ∉ others))
    (within : (itemSortsOf front).all (· ∈ sorts)) (within' : (itemSortsOf back).all (· ∈ others))
    (matched : Matches (front ++ back) nodes) :
    ∃ rest, Matches back rest ∧
      (itemsOf nodes).filterMap choose = (itemsOf rest).filterMap choose ∧
      words ((itemsOf nodes).filterMap select) ++ words ((itemsOf nodes).filterMap choose) =
        words nodes := by
  obtain ⟨head, rest, rfl, matched, matched'⟩ := matches_append _ matched
  have first := matched.items_among sorts within
  have second := matched'.items_among others within'
  have none := behind.filterMap_eq_nil apart' first
  have none' := ahead.filterMap_eq_nil apart second
  refine ⟨rest, matched', by simp [itemsOf_append, none], ?_⟩
  rw [itemsOf_append, List.filterMap_append, List.filterMap_append, none, none', List.append_nil,
    List.nil_append, ahead.words_filterMap_of_all first, behind.words_filterMap_of_all second,
    words_itemsOf, words_itemsOf, words_append]

end Selecting

theorem mapM_guard {accept : Node → Bool} (nodes : List Node)
    (all : ∀ node ∈ nodes, accept node) : nodes.mapM (Option.guard accept) = some nodes := by
  induction nodes with
  | nil => rfl
  | cons node nodes ih =>
    obtain ⟨accepted, rest⟩ := List.forall_mem_cons.mp all
    rw [List.mapM_cons, ih rest]
    simp [Option.guard, accepted]

theorem chooses_tokenOf (kind : Kind) : Chooses [.token kind] (tokenOf? kind) where
  single holds := by
    cases holds with
    | @token other part same =>
      subst same
      by_cases same : part.kind = kind <;> simp [tokenOf?, token?, same]
    | _ => simp [tokenOf?, token?]
  list _ _ := rfl

theorem tokenKind?_beq (kind : Kind) (node : Node) :
    (node.tokenKind? == some kind) = (tokenOf? kind node).isSome := by
  cases node with
  | token part => by_cases same : part.kind = kind <;> simp [Node.tokenKind?, tokenOf?, token?, same]
  | _ => rfl

/-! ### Runs -/

section Runs

variable {α β : Type} {rule expected : String} {node : Node} {nodes : List Node}
  {select : Node → Option α}

theorem run_bind {step : OperandM α} {go : α → OperandM β} {value : α} {before after : Operands}
    (ran : step.run before = (.ok value, after)) :
    (step >>= go).run before = (go value).run after := by
  change (ExceptT.bindCont go (step.run before).1).run (step.run before).2 = _
  rw [ran]
  rfl

theorem run_ofNode {value : α} (chosen : select node = some value) (operands : Operands) :
    (ofNode expected select node).run operands = (.ok value, operands) := by
  unfold ofNode
  rw [chosen]
  rfl

theorem run_nextAs {value : α} (chosen : select node = some value) :
    (nextAs expected select).run ⟨rule, node :: nodes⟩ = (.ok value, ⟨rule, nodes⟩) := by
  unfold nextAs
  exact (run_bind rfl).trans (run_ofNode chosen _)

theorem run_take_some {value : α} (chosen : select node = some value) :
    (take? select).run ⟨rule, node :: nodes⟩ = (.ok (some value), ⟨rule, nodes⟩) := by
  unfold take?
  refine (run_bind rfl).trans ?_
  simp only [List.head?_cons, Option.bind_some, chosen]
  rfl

theorem run_take_none (none : nodes.head?.bind select = none) :
    (take? select).run ⟨rule, nodes⟩ = (.ok Option.none, ⟨rule, nodes⟩) := by
  unfold take?
  refine (run_bind rfl).trans ?_
  simp only [none]
  rfl

theorem run_allAs {values : List α} (chosen : nodes.mapM select = some values)
    (operands : Operands) :
    (allAs expected select nodes).run operands = (.ok values, operands) := by
  unfold allAs
  induction nodes generalizing values with
  | nil =>
    cases chosen
    rfl
  | cons node nodes ih =>
    simp only [List.mapM_cons, Option.bind_eq_bind, Option.bind_eq_some_iff, Option.pure_def,
      Option.some.injEq] at chosen
    obtain ⟨value, first, values, others, rfl⟩ := chosen
    rw [List.mapM_cons, run_bind (run_ofNode first operands), run_bind (ih others)]
    rfl

end Runs

/-! ### The logic -/

/-- On operands that match the row, behind others with the words, the step makes a node of the
shape with the words of all of them. -/
def Makes (row : List Piece) (before : List Word) (step : OperandM Node) (result : Shape) : Prop :=
  ∀ rule nodes, Matches row nodes → ∃ node after,
    step.run ⟨rule, nodes⟩ = (.ok node, after) ∧ result.Holds node ∧
      node.words = before ++ words nodes

namespace Makes

variable {α : Type} [HasWords α] {row inner : List Piece} {before : List Word}
  {shape result : Shape} {sort : NodeSort} {sorts : List NodeSort} {select : Node → Option α}
  {expected : String} {kind : Kind} {kinds : List Kind} {node : Node} {step : OperandM Node}

/-- A step that takes the operands in front and leaves others. -/
theorem bind {β : Type} (rest : List Piece) {taking : OperandM β} {go : β → OperandM Node}
    (takes : ∀ rule nodes, Matches row nodes → ∃ value front left, nodes = front ++ left ∧
      taking.run ⟨rule, nodes⟩ = (.ok value, ⟨rule, left⟩) ∧ Matches rest left ∧
      Makes rest (before ++ words front) (go value) result) :
    Makes row before (taking >>= go) result := by
  intro rule nodes matched
  obtain ⟨value, front, left, rfl, ran, matched, makes⟩ := takes rule nodes matched
  obtain ⟨node, after, made, holds, same⟩ := makes rule left matched
  exact ⟨node, after, (run_bind ran).trans made, holds, by
    rw [same, words_append, List.append_assoc]⟩

/-- A reduction ends when nothing but tokens is left, with a node that has all the words. -/
theorem finish (silent : itemSortsOf row = []) (holds : result.Holds node)
    (same : node.words = before) : Makes row before (pure node) result := by
  intro rule nodes matched
  refine ⟨node, _, rfl, holds, ?_⟩
  rw [matched.words_eq_nil silent, List.append_nil, same]

theorem done (silent : itemSortsOf row = []) (holds : sort.Holds node)
    (same : node.words = before) : Makes row before (pure node) (.of [sort]) :=
  finish silent (Shape.holds_of.mpr ⟨sort, List.mem_singleton_self sort, holds⟩) same

/-- A piece that may be missing is there or is not. -/
theorem maybe (skip : Makes row before step result)
    (take : Makes (inner ++ row) before step result) :
    Makes (.maybe inner :: row) before step result := by
  intro rule nodes matched
  cases matched with
  | skip rest => exact skip rule nodes rest
  | take body rest => exact take rule _ (body.append rest)

theorem missing (makes : Makes (.maybe inner :: row) before step result) :
    Makes row before step result :=
  fun rule nodes matched => makes rule nodes (.skip matched)

theorem present (inner : List Piece) (makes : Makes (.maybe inner :: row) before step result) :
    Makes (inner ++ row) before step result := by
  intro rule nodes matched
  obtain ⟨front, rest, rfl, head, tail⟩ := matches_append _ matched
  exact makes rule _ (.take head tail)

/-! ### Operands that must be there -/

theorem next {go : Node → OperandM Node}
    (further : ∀ node, shape.Holds node → Makes row (before ++ node.words) (go node) result) :
    Makes (.part shape :: row) before (OperandM.next >>= go) result := by
  refine bind row fun rule nodes matched => ?_
  cases matched with
  | @part _ node _ nodes holds rest =>
    exact ⟨node, [node], nodes, rfl, rfl, rest, by simpa using further node holds⟩

theorem nextAs_each {β : Type} {select : Node → Option β} {go : β → OperandM Node}
    (further : ∀ node, shape.Holds node → ∃ value, select node = some value ∧
      Makes row (before ++ node.words) (go value) result) :
    Makes (.part shape :: row) before (OperandM.nextAs expected select >>= go) result := by
  refine bind row fun rule nodes matched => ?_
  cases matched with
  | @part _ node _ nodes holds rest =>
    obtain ⟨value, chosen, makes⟩ := further node holds
    exact ⟨value, [node], nodes, rfl, run_nextAs chosen, rest, by simpa using makes⟩

theorem nextAs {go : α → OperandM Node} (chooses : Chooses sorts select)
    (within : shape.within (.of sorts))
    (further : ∀ value, Makes row (before ++ words value) (go value) result) :
    Makes (.part shape :: row) before (OperandM.nextAs expected select >>= go) result := by
  refine nextAs_each fun node holds => ?_
  obtain ⟨value, chosen, same⟩ := chooses.of_within within holds
  exact ⟨value, chosen, same ▸ further value⟩

theorem token {go : Token → OperandM Node}
    (further : ∀ token : Token, token.kind ∈ kinds → Makes row before (go token) result) :
    Makes (.tokens kinds :: row) before (OperandM.token >>= go) result := by
  refine bind row fun rule nodes matched => ?_
  cases matched with
  | @part _ node _ nodes holds rest =>
    obtain ⟨sort, among, holds⟩ := Shape.holds_of.mp holds
    obtain ⟨kind, known, rfl⟩ := List.mem_map.mp among
    cases holds with
    | token part same =>
      refine ⟨part, [.token part], nodes, rfl, run_nextAs rfl, rest, ?_⟩
      simpa using further part (same ▸ known)

theorem expect {go : Token → OperandM Node}
    (further : ∀ token : Token, token.kind = kind → Makes row before (go token) result) :
    Makes (.token kind :: row) before (OperandM.expect kind >>= go) result := by
  refine bind row fun rule nodes matched => ?_
  cases matched with
  | @part _ node _ nodes holds rest =>
    obtain ⟨sort, among, holds⟩ := Shape.holds_of.mp holds
    obtain rfl := List.mem_singleton.mp among
    cases holds with
    | token part same =>
      have chosen : tokenOf? kind (.token part) = some part := by simp [tokenOf?, token?, same]
      refine ⟨part, [.token part], nodes, rfl, run_nextAs chosen, rest, ?_⟩
      simpa using further part same

omit [HasWords α] in
theorem ofNode {value : α} {go : α → OperandM Node} (chosen : select node = some value)
    (further : Makes row before (go value) result) :
    Makes row before (OperandM.ofNode expected select node >>= go) result :=
  bind row fun _ nodes matched =>
    ⟨value, [], nodes, rfl, run_ofNode chosen _, matched, by simpa using further⟩

/-- The items of a node, all of which are selected. -/
theorem nodeItems {go : List α → OperandM Node} (chooses : Chooses sorts select)
    (all : ∀ item ∈ node.items, ∃ sort ∈ sorts, sort.Holds item)
    (further : ∀ values, Makes row (before ++ words values) (go values) result) :
    Makes row (before ++ node.words) (OperandM.allAs expected select node.items >>= go) result := by
  obtain ⟨values, chosen, same⟩ := chooses.all _ all
  rw [Node.words_items] at same
  refine bind row fun rule left matched => ⟨values, [], left, rfl, run_allAs chosen _, matched, ?_⟩
  simpa [same] using further values

theorem nextItems {go : List α → OperandM Node} (chooses : Chooses sorts select)
    (within : (shape.sorts ++ shape.items).all (· ∈ sorts))
    (further : ∀ values, Makes row (before ++ words values) (go values) result) :
    Makes (.part shape :: row) before
      (OperandM.next >>= fun node => OperandM.allAs expected select node.items >>= go) result := by
  refine next fun node holds => nodeItems chooses (fun item member => ?_) further
  obtain ⟨sort, among, holds⟩ := holds.items item member
  exact ⟨sort, by simpa using List.all_eq_true.mp within sort among, holds⟩

/-! ### Looking at operands without taking them -/

theorem peek {go : Option Node → OperandM Node}
    (further : ∀ nodes, Matches row nodes → Makes row before (go nodes.head?) result) :
    Makes row before (OperandM.peek >>= go) result :=
  bind row fun _ nodes matched => ⟨nodes.head?, [], nodes, rfl, rfl, matched, by
    simpa using further nodes matched⟩

theorem nextIs {go : Bool → OperandM Node}
    (further : Makes (.token kind :: row) before (go true) result) :
    Makes (.token kind :: row) before (OperandM.nextIs kind >>= go) result := by
  refine bind (.token kind :: row) fun rule nodes matched =>
    ⟨true, [], nodes, rfl, ?_, matched, by simpa using further⟩
  cases matched with
  | part holds =>
    obtain ⟨_, among, holds⟩ := Shape.holds_of.mp holds
    obtain rfl := List.mem_singleton.mp among
    cases holds with
    | token part same =>
      change (Except.ok (some part.kind == some kind), _) = _
      rw [same, beq_self_eq_true]

theorem nextIs_false {go : Bool → OperandM Node} (avoid : avoids [.token kind] row)
    (further : Makes row before (go false) result) :
    Makes row before (OperandM.nextIs kind >>= go) result := by
  refine bind row fun rule nodes matched =>
    ⟨false, [], nodes, rfl, ?_, matched, by simpa using further⟩
  have none := (chooses_tokenOf kind).none_of_avoids avoid matched
  change (Except.ok (nodes.head?.bind Node.tokenKind? == some kind), _) = _
  cases nodes with
  | nil => rfl
  | cons node nodes =>
    have none : tokenOf? kind node = Option.none := none
    rw [List.head?_cons, Option.bind_some, tokenKind?_beq, none]
    rfl

/-- Whether a token of some kind is left does not matter to what the step makes. -/
theorem anyIs {go : Bool → OperandM Node}
    (further : ∀ any, Makes row before (go any) result) :
    Makes row before (OperandM.anyIs kind >>= go) result :=
  bind row fun _ nodes matched => ⟨_, [], nodes, rfl, rfl, matched, by
    simpa using further _⟩

theorem count {go : Nat → OperandM Node}
    (further : ∀ nodes, Matches row nodes → Makes row before (go nodes.length) result) :
    Makes row before (OperandM.count >>= go) result :=
  bind row fun _ nodes matched => ⟨nodes.length, [], nodes, rfl, rfl, matched, by
    simpa using further nodes matched⟩

theorem anyIs_false {go : Bool → OperandM Node} (lack : lacks [.token kind] row)
    (further : Makes row before (go false) result) :
    Makes row before (OperandM.anyIs kind >>= go) result := by
  refine bind row fun rule nodes matched =>
    ⟨false, [], nodes, rfl, ?_, matched, by simpa using further⟩
  have none : nodes.any (·.tokenKind? == some kind) = false := by
    refine List.any_eq_false.mpr fun node member => ?_
    rw [tokenKind?_beq, (chooses_tokenOf kind).none_of_lacks lack matched node member]
    simp
  change (Except.ok (nodes.any (·.tokenKind? == some kind)), _) = _
  rw [none]

theorem anyIs_second {shape : Shape} {go : Bool → OperandM Node}
    (further : Makes (.part shape :: Piece.token kind :: row) before (go true) result) :
    Makes (.part shape :: Piece.token kind :: row) before (OperandM.anyIs kind >>= go) result := by
  refine bind (.part shape :: Piece.token kind :: row) fun rule nodes matched =>
    ⟨true, [], nodes, rfl, ?_, matched, by simpa using further⟩
  have some : nodes.any (·.tokenKind? == some kind) = true := by
    cases matched with
    | part _ rest =>
      cases rest with
      | part holds =>
        obtain ⟨_, among, holds⟩ := Shape.holds_of.mp holds
        obtain rfl := List.mem_singleton.mp among
        cases holds with
        | token part same => simp [Node.tokenKind?, same]
  change (Except.ok (nodes.any (·.tokenKind? == Option.some kind)), _) = _
  rw [some]

/-- It does not matter which token is next. -/
theorem nextIs_any {go : Bool → OperandM Node} (further : ∀ any, Makes row before (go any) result) :
    Makes row before (OperandM.nextIs kind >>= go) result :=
  bind row fun _ nodes matched => ⟨_, [], nodes, rfl, rfl, matched, by simpa using further _⟩

/-! ### Operands that may be missing -/

theorem take_some {go : Option α → OperandM Node} (chooses : Chooses sorts select)
    (within : shape.within (.of sorts))
    (further : ∀ value, Makes row (before ++ words value) (go (some value)) result) :
    Makes (.part shape :: row) before (take? select >>= go) result := by
  refine bind row fun rule nodes matched => ?_
  cases matched with
  | @part _ node _ nodes holds rest =>
    obtain ⟨value, chosen, same⟩ := chooses.of_within within holds
    refine ⟨some value, [node], nodes, rfl, run_take_some chosen, rest, ?_⟩
    simpa [same] using further value

theorem take_none {go : Option α → OperandM Node} (chooses : Chooses sorts select)
    (avoid : avoids sorts row) (further : Makes row before (go none) result) :
    Makes row before (take? select >>= go) result := by
  refine bind row fun rule nodes matched =>
    ⟨none, [], nodes, rfl, run_take_none (chooses.none_of_avoids avoid matched), matched, ?_⟩
  simpa using further

theorem take {go : Option α → OperandM Node} (chooses : Chooses sorts select)
    (within : shape.within (.of sorts)) (avoid : avoids sorts row)
    (further : ∀ value, Makes row (before ++ words value) (go value) result) :
    Makes (.maybe [.part shape] :: row) before (take? select >>= go) result :=
  maybe (take_none chooses avoid (by simpa using further none))
    (take_some chooses within fun value => further (some value))

/-- A list of items that are selected, unless it is missing. -/
theorem repetition {go : List α → OperandM Node} {items : List NodeSort}
    (chooses : Chooses sorts select) (within : items.all (· ∈ sorts)) (avoid : avoids sorts row)
    (further : ∀ values, Makes row (before ++ words values) (go values) result) :
    Makes (.many items :: row) before (OperandM.repetition expected select >>= go) result := by
  refine bind row fun rule nodes matched => ?_
  unfold OperandM.repetition
  cases matched with
  | skip rest =>
    refine ⟨[], [], nodes, rfl, ?_, rest, by simpa using further []⟩
    rw [run_bind (run_take_none (chooses.no_items_of_avoids avoid rest))]
    rfl
  | @take _ _ front nodes body rest =>
    cases body with
    | part holds nothing =>
      cases nothing
      obtain ⟨name, items, rfl, some, all⟩ := Shape.holds_listOf.mp holds
      simp only [List.all_eq_true, decide_eq_true_eq] at within
      obtain ⟨values, chosen, same⟩ := chooses.all items fun item member => by
        obtain ⟨sort, among, holds⟩ := all item member
        exact ⟨sort, within sort among, holds⟩
      refine ⟨values, [.list name items], nodes, rfl, ?_, rest, by simpa [same] using further values⟩
      obtain ⟨head, others, rfl⟩ := List.exists_cons_of_ne_nil some
      obtain ⟨sort, among, first⟩ := all head List.mem_cons_self
      obtain ⟨value, picked, -⟩ := chooses.chosen first (within sort among)
      have found : itemsIf select (.list name (head :: others)) = Option.some (head :: others) := by
        simp [itemsIf, Node.items, picked]
      rw [List.singleton_append, run_bind (run_take_some found)]
      exact run_allAs chosen _

/-! ### All operands that are left -/

theorem rest {go : List Node → OperandM Node}
    (further : ∀ nodes, Matches row nodes → Makes [] (before ++ words nodes) (go nodes) result) :
    Makes row before (OperandM.rest >>= go) result :=
  bind [] fun _ nodes matched =>
    ⟨nodes, nodes, [], (List.append_nil nodes).symm, rfl, .nil, further nodes matched⟩

/-- The operands in front of the first that is selected. -/
theorem takeUntil (front : List Piece) {go : List Node → OperandM Node}
    (chooses : Chooses sorts select) (lack : lacks sorts front) (within : shape.within (.of sorts))
    (further : ∀ nodes, Matches front nodes →
      Makes (.part shape :: row) (before ++ words nodes) (go nodes) result) :
    Makes (front ++ .part shape :: row) before
      (OperandM.takeUntil (fun node => (select node).isSome) >>= go) result := by
  refine bind (.part shape :: row) fun rule nodes matched => ?_
  obtain ⟨ahead, left, rfl, head, tail⟩ := matches_append _ matched
  refine ⟨ahead, ahead, left, rfl, ?_, tail, further ahead head⟩
  have passed (node : Node) (member : node ∈ ahead) : (!(select node).isSome) = true := by
    rw [chooses.none_of_lacks lack head node member]
    rfl
  cases tail with
  | @part _ node _ left holds =>
    obtain ⟨value, chosen, -⟩ := chooses.of_within within holds
    change (Except.ok (List.takeWhile _ _), (⟨rule, List.dropWhile _ _⟩ : Operands)) = _
    rw [List.takeWhile_append_of_pos passed, List.dropWhile_append_of_pos passed]
    simp [chosen]

theorem items {go : List Node → OperandM Node}
    (further : ∀ nodes, Matches row nodes →
      Makes [] (before ++ words (itemsOf nodes)) (go (itemsOf nodes)) result) :
    Makes row before (OperandM.items >>= go) result :=
  bind [] fun _ nodes matched =>
    ⟨itemsOf nodes, nodes, [], (List.append_nil nodes).symm, rfl, .nil, by
      simpa using further nodes matched⟩

omit [HasWords α] in
theorem allAs {go : List α → OperandM Node} {nodes : List Node} {values : List α}
    (chosen : nodes.mapM select = some values) (further : Makes row before (go values) result) :
    Makes row before (OperandM.allAs expected select nodes >>= go) result :=
  bind row fun _ left matched => ⟨values, [], left, rfl, run_allAs chosen _, matched, by
    simpa using further⟩

/-- All operands that are left, apart from tokens, as what is selected. -/
theorem allItems {go : List α → OperandM Node} (chooses : Chooses sorts select)
    (within : (itemSortsOf row).all (· ∈ sorts))
    (further : ∀ values, Makes [] (before ++ words values) (go values) result) :
    Makes row before
      (OperandM.items >>= fun nodes => OperandM.allAs expected select nodes >>= go) result := by
  refine items fun nodes matched => ?_
  obtain ⟨values, chosen, same⟩ := chooses.all (itemsOf nodes) (matched.items_among sorts within)
  exact allAs chosen (same ▸ further values)

/-- All operands that are left, apart from tokens, each of which is accepted. -/
theorem acceptedItems {accept : Node → Bool} {go : List Node → OperandM Node}
    (accepts : ∀ {sort node}, sort.Holds node → sort ∈ sorts → accept node)
    (within : (itemSortsOf row).all (· ∈ sorts))
    (further : ∀ nodes, Matches row nodes →
      Makes [] (before ++ words nodes) (go (itemsOf nodes)) result) :
    Makes row before (OperandM.items >>= fun nodes =>
      OperandM.allAs expected (Option.guard accept) nodes >>= go) result := by
  refine items fun nodes matched => allAs (mapM_guard _ fun item member => ?_) ?_
  · obtain ⟨sort, among, holds⟩ := matched.items_among sorts within item member
    exact accepts holds among
  · rw [words_itemsOf]
    exact further nodes matched

end Makes

end OperandM

end JavaFrontend
