import JavaFrontend.Proofs.Java.Parses

/-!
What a parser for Java builds, told by the alternatives of its grammar as they are written: an
optional group is there or not, and a repeated one any number of times, whatever names and rules
expansion has put in their place. What every alternative hands on from the names in it to its own
name holds of all that is built (`Parses.holds_of_builds`).
-/

namespace JavaFrontend.Java

open Element JavaFrontend.Java.Reduction

variable {Holds : String → List Token → Node → Prop} {elements body : List Element}
  {tokens inner : List Token} {parts front back : Production} {nodes : List Node} {node : Node}
  {name : String}

/-! ### Rows of elements -/

/-- The tokens are some that the elements stand for, by the parts, and the nodes are what the parts
were made into: each token into its leaf, each name into something of which `Holds` is true, and
occurrences of a group, if there are any, into the list of what each adds. -/
inductive Made (Holds : String → List Token → Node → Prop) :
    List Element → List Token → Production → List Node → Prop where
  | nil : Made Holds [] [] [] []
  | token {kind : Kind} {elements : List Element} {tokens : List Token} {parts : Production}
      {nodes : List Node} (token : Token) (same : token.kind = kind)
      (rest : Made Holds elements tokens parts nodes) :
    Made Holds (.token kind :: elements) (token :: tokens) (.token kind :: parts)
      (.ofToken token :: nodes)
  | rule {name : String} {elements : List Element} {inner tokens : List Token} {parts : Production}
      {node : Node} {nodes : List Node} (holds : Holds name inner node)
      (rest : Made Holds elements tokens parts nodes) :
    Made Holds (.rule name :: elements) (inner ++ tokens) (.rule name :: parts) (node :: nodes)
  | absent (body : List Element) {elements : List Element} {tokens : List Token}
      {parts : Production} {nodes : List Node} (rest : Made Holds elements tokens parts nodes) :
    Made Holds (.optional body :: elements) tokens parts nodes
  | present {body elements : List Element} {inner tokens : List Token} {front parts : Production}
      {items nodes : List Node} (inside : Made Holds body inner front items)
      (rest : Made Holds elements tokens parts nodes) :
    Made Holds (.optional body :: elements) (inner ++ tokens) (front ++ parts) (items ++ nodes)
  | never (body : List Element) {elements : List Element} {tokens : List Token}
      {parts : Production} {nodes : List Node} (rest : Made Holds elements tokens parts nodes) :
    Made Holds (.repeated body :: elements) tokens parts nodes
  | times {body elements : List Element} {tokens : List Token} {parts : Production}
      {nodes : List Node} (name element : String)
      (occurrences : List (List Token × Production × List Node)) (some : occurrences ≠ [])
      (each : ∀ occurrence ∈ occurrences,
        Made Holds body occurrence.1 occurrence.2.1 occurrence.2.2)
      (rest : Made Holds elements tokens parts nodes) :
    Made Holds (.repeated body :: elements) (occurrences.flatMap (·.1) ++ tokens)
      (.rule name :: parts)
      (.list element (occurrences.flatMap fun occurrence =>
        TreeBuilder.bodyItems false occurrence.2.2) :: nodes)

/-- What a rule of the name with the parts is made into, given what the parts were made into: a
name alone passes it on, and the reduction of the name is asked about all else. -/
def Reduces (name : String) (parts : Production) (nodes : List Node) (node : Node) : Prop :=
  match (⟨name, parts⟩ : Rule).unitTarget? with
  | some _ => nodes = [node]
  | none => ∃ reduction, table.lookup name = some reduction ∧
      (reduction.run ⟨name, nodes⟩).1 = .ok node

/-! ### Rows of parts -/

/-- The node is made of the tokens for the part: by the reductions of one of the alternatives if
they have the name, and as a list if a repetition has it. -/
inductive PartMade (Holds : String → List Token → Node → Prop) (repetitions : Repetitions) :
    Part → List Token → Node → Prop where
  | token (token : Token) : PartMade Holds repetitions (.token token.kind) [token] (.ofToken token)
  | rule {name : String} {tokens : List Token} {node : Node}
      (holds : name ∈ Grammar.rules.map (·.name) → Holds name tokens node)
      (times : ∀ body, (body, name) ∈ repetitions → ∃ (element : String)
        (occurrences : List (List Token × Production × List Node)), occurrences ≠ [] ∧
          tokens = occurrences.flatMap (·.1) ∧
          node = .list element (occurrences.flatMap fun occurrence =>
            TreeBuilder.bodyItems false occurrence.2.2) ∧
          ∀ occurrence ∈ occurrences, Made Holds body occurrence.1 occurrence.2.1 occurrence.2.2) :
    PartMade Holds repetitions (.rule name) tokens node

/-- The parts are made into the nodes one after the other. -/
inductive RowMade (Holds : String → List Token → Node → Prop) (repetitions : Repetitions) :
    Production → List Token → List Node → Prop where
  | nil : RowMade Holds repetitions [] [] []
  | cons {part : Part} {parts : Production} {inner tokens : List Token} {node : Node}
      {nodes : List Node} (head : PartMade Holds repetitions part inner node)
      (tail : RowMade Holds repetitions parts tokens nodes) :
    RowMade Holds repetitions (part :: parts) (inner ++ tokens) (node :: nodes)

variable {repetitions : Repetitions}

theorem RowMade.split (row : RowMade Holds repetitions (front ++ back) tokens nodes) :
    ∃ (left right : List Token) (items others : List Node), tokens = left ++ right ∧
      nodes = items ++ others ∧ RowMade Holds repetitions front left items ∧
      RowMade Holds repetitions back right others := by
  induction front generalizing tokens nodes with
  | nil => exact ⟨[], tokens, [], nodes, rfl, rfl, .nil, row⟩
  | cons part front ih =>
    cases row with
    | @cons _ _ inner _ node _ head tail =>
      obtain ⟨left, right, items, others, rfl, rfl, before, behind⟩ := ih tail
      exact ⟨inner ++ left, right, node :: items, others, by rw [List.append_assoc], rfl,
        .cons head before, behind⟩

/-- What the parts that elements spell are made into, the elements are. -/
theorem made_of_spells (spelled : Spells repetitions elements parts)
    (known : ∀ name ∈ bodyNames elements, name ∈ Grammar.rules.map (·.name))
    (row : RowMade Holds repetitions parts tokens nodes) :
    Made Holds elements tokens parts nodes := by
  induction spelled generalizing tokens nodes with
  | nil =>
    cases row
    exact .nil
  | token kind _ ih =>
    cases row with
    | cons head tail =>
      cases head with
      | token token => exact .token token rfl (ih (by simpa [bodyNames, names] using known) tail)
  | rule name _ ih =>
    simp only [bodyNames, names, List.singleton_append, List.forall_mem_cons] at known
    cases row with
    | cons head tail =>
      cases head with
      | rule holds => exact .rule (holds known.1) (ih known.2 tail)
  | skip body _ ih =>
    exact .absent body (ih (fun name member => known name (List.mem_append_right _ member)) row)
  | take _ _ insideIh restIh =>
    obtain ⟨here, later⟩ := List.forall_mem_append.mp known
    obtain ⟨left, right, items, others, rfl, rfl, before, behind⟩ := row.split
    exact .present (insideIh here before) (restIh later behind)
  | never body _ ih =>
    exact .never body (ih (fun name member => known name (List.mem_append_right _ member)) row)
  | some named _ ih =>
    cases row with
    | cons head tail =>
      cases head with
      | rule _ times =>
        obtain ⟨element, occurrences, some, rfl, rfl, each⟩ := times _ named
        exact .times _ element occurrences some each
          (ih (fun name member => known name (List.mem_append_right _ member)) tail)

/-! ### What is built -/

variable {goal : Element} {expansion : Expansion} {grammar : JavaFrontend.Grammar}
  {parser : Parser Node}

/-- What a rule with the name of an alternative is made into. -/
theorem reduces_of_reduce {id : Nat} (found : grammar.rule? id = some ⟨name, parts⟩)
    (other : ¬ TreeBuilder.isRepetition name) (proper : name ≠ Grammar.goalName)
    (made : (builder grammar).reduce id nodes = .ok node)
    (length : nodes.length = parts.length) : Reduces name parts nodes node := by
  unfold Reduces
  cases target : (⟨name, parts⟩ : Rule).unitTarget? with
  | some target' =>
    obtain rfl : parts = [.rule target'] := DerivationTree.parts_of_unitTarget target
    obtain ⟨operand, rfl⟩ := List.length_eq_one_iff.mp length
    rw [reduce_single found other (by simp [target])] at made
    cases made
    rfl
  | none =>
    have lookup : constructor? grammar name = table.lookup name := if_neg proper
    cases constructor : table.lookup name with
    | some reduction =>
      rw [reduce_construct found other target (lookup.trans constructor)] at made
      exact ⟨reduction, rfl, made⟩
    | none =>
      rw [reduce_missing found other target (lookup.trans constructor)] at made
      cases made

theorem RowMade.length (row : RowMade Holds repetitions parts tokens nodes) :
    nodes.length = parts.length := by
  induction row with
  | nil => rfl
  | cons _ _ ih => rw [List.length_cons, List.length_cons, ih]

theorem ne_nil_of_plainBody (plain : plainBody body) (spelled : Spells repetitions body parts) :
    parts ≠ [] := by
  rintro rfl
  have optional := all_isOptional spelled
  cases body with
  | nil => cases plain
  | cons element body => cases element <;> simp_all [plainBody, isOptional]

/-- A repetition is made into the list of what its occurrences add. -/
theorem times_of_origin {id : Nat} (isFor : IsFor goal expansion grammar)
    (named : (body, name) ∈ expansion.repetitions)
    (found : grammar.rule? id = some ⟨name, parts⟩)
    (origin : Spells expansion.repetitions body parts ∨
      ∃ inner, parts = .rule name :: inner ∧ Spells expansion.repetitions body inner)
    (row : RowMade Holds expansion.repetitions parts tokens nodes)
    (made : (builder grammar).reduce id nodes = .ok node) :
    ∃ (element : String) (occurrences : List (List Token × Production × List Node)),
      occurrences ≠ [] ∧ tokens = occurrences.flatMap (·.1) ∧
      node = .list element (occurrences.flatMap fun occurrence =>
        TreeBuilder.bodyItems false occurrence.2.2) ∧
      ∀ occurrence ∈ occurrences, Made Holds body occurrence.1 occurrence.2.1 occurrence.2.2 := by
  have repetition := isFor.named.names body name named
  have plain := isFor.named.plain body name named
  obtain ⟨alternative, member, inside⟩ := List.mem_flatMap.mp (isFor.faithful.sound.inside _ named)
  have known : ∀ name ∈ bodyNames body, name ∈ Grammar.rules.map (·.name) := by
    intro other among
    exact Grammar.mem_rules_of_shapeOf ((known_of_plainBody plain).1 other among)
  rw [reduce_repetition found repetition] at made
  rcases origin with spelled | ⟨inner, rfl, spelled⟩
  · have first : (⟨name, parts⟩ : Rule).isLeftRecursive = false := by
      refine Bool.eq_false_iff.mpr fun recursive => ?_
      obtain ⟨part, others, begins⟩ := DerivationTree.parts_of_isLeftRecursive recursive
      have shape : (shapeOf name).isSome := known_of_plain_spelled plain spelled (by
        rw [show parts = _ from begins]
        exact List.mem_cons_self)
      rw [shapeOf_of_isRepetition repetition] at shape
      cases shape
    unfold TreeBuilder.repeatedNode at made
    rw [first] at made
    cases made
    exact ⟨name, [(tokens, parts, nodes)], by simp, by simp, by simp,
      by simpa using made_of_spells spelled known row⟩
  · cases row with
    | @cons _ _ before last list others head tail =>
      cases head with
      | rule _ times =>
        obtain ⟨element, occurrences, some, rfl, rfl, each⟩ := times _ named
        have one := made_of_spells spelled known tail
        have further : (⟨name, .rule name :: inner⟩ : Rule).isLeftRecursive = true := by
          cases inner with
          | nil => exact absurd rfl (ne_nil_of_plainBody plain spelled)
          | cons part inner => simp [Rule.isLeftRecursive]
        unfold TreeBuilder.repeatedNode at made
        rw [further] at made
        cases made
        exact ⟨element, occurrences ++ [(last, inner, others)], by simp, by simp, by simp,
          List.forall_mem_append.mpr ⟨each, by simpa using one⟩⟩

/-- What every alternative hands on to what is built for it holds of all that is built. -/
theorem Parses.row_of_steps (parses : Parses goal expansion grammar parser)
    (step : ∀ alternative ∈ Grammar.rules, ∀ (tokens : List Token) (parts : Production)
      (nodes : List Node) (node : Node), parser.Builds [.rule alternative.name] tokens [node] →
        Made Holds alternative.elements tokens parts nodes →
          Reduces alternative.name parts nodes node → Holds alternative.name tokens node)
    (built : parser.Builds parts tokens nodes) :
    RowMade Holds expansion.repetitions parts tokens nodes := by
  obtain ⟨typeContext, rfl⟩ := parses.made
  induction built with
  | nil => exact .nil
  | token token _ ih => exact .cons (.token token) ih
  | @rule id rule parts inner tokens operands values value found body made _ bodyIh restIh =>
    have one := ChartParser.Builds.rule found body made .nil
    rw [List.append_nil] at one
    refine .cons (.rule (fun known => ?_) fun body named => ?_) restIh
    · obtain ⟨name, parts⟩ := rule
      obtain ⟨alternative, member, rfl⟩ := List.mem_map.mp known
      have shape := (Grammar.shapeOf_of_mem_rules member).1
      have other : ¬ TreeBuilder.isRepetition alternative.name := fun repetition => by
        rw [shapeOf_of_isRepetition repetition] at shape
        cases shape
      have proper : alternative.name ≠ Grammar.goalName := fun same => by
        rw [same, shapeOf_goalName] at shape
        cases shape
      have origin : Expansion.Origin _ _ alternative.name parts :=
        parses.isFor.faithful.sound.origins _ parts
          (parses.isFor.rules _ (Grammar.rule?_mem found))
      cases origin with
      | once named => exact absurd (parses.isFor.named.names _ _ named) other
      | again named => exact absurd (parses.isFor.named.names _ _ named) other
      | @alternative origin _ among same spelled =>
        rcases List.mem_cons.mp among with rfl | among
        · exact absurd same.symm proper
        · rw [← same]
          refine step origin among inner parts operands value (same.symm ▸ one) ?_ ?_
          · refine made_of_spells spelled (fun name inside => ?_) bodyIh
            exact Grammar.mem_rules_of_shapeOf ((Grammar.shapeOf_of_mem_rules among).2.1 name inside)
          · rw [same]
            exact reduces_of_reduce found other proper made bodyIh.length
    · obtain ⟨name, parts⟩ := rule
      have repetition := parses.isFor.named.names _ _ named
      have origin : Expansion.Origin _ _ name parts :=
        parses.isFor.faithful.sound.origins _ parts
          (parses.isFor.rules _ (Grammar.rule?_mem found))
      cases origin with
      | once also spelled =>
        obtain rfl := parses.isFor.named.unique _ _ _ named also
        exact times_of_origin parses.isFor named found (.inl spelled) bodyIh made
      | again also spelled =>
        obtain rfl := parses.isFor.named.unique _ _ _ named also
        exact times_of_origin parses.isFor named found (.inr ⟨_, rfl, spelled⟩) bodyIh made
      | alternative among same =>
        exfalso
        cases same
        rcases List.mem_cons.mp among with rfl | among
        · have other : TreeBuilder.isRepetition Grammar.goalName = false := by decide
          exact absurd (other.symm.trans repetition) Bool.false_ne_true
        · have shape := (Grammar.shapeOf_of_mem_rules among).1
          rw [shapeOf_of_isRepetition repetition] at shape
          cases shape

/-- What every alternative hands on holds of what is built for a name. -/
theorem Parses.holds_of_builds (parses : Parses goal expansion grammar parser)
    (step : ∀ alternative ∈ Grammar.rules, ∀ (tokens : List Token) (parts : Production)
      (nodes : List Node) (node : Node), Made Holds alternative.elements tokens parts nodes →
        Reduces alternative.name parts nodes node → Holds alternative.name tokens node)
    (known : name ∈ Grammar.rules.map (·.name))
    (built : parser.Builds [.rule name] tokens [node]) : Holds name tokens node := by
  have row := parses.row_of_steps (fun alternative member tokens parts nodes node _ =>
    step alternative member tokens parts nodes node) built
  cases row with
  | cons head tail =>
    cases tail
    cases head with
    | rule holds =>
      rw [List.append_nil]
      exact holds known

/-! ### Goals -/

theorem uncons_of_builds {part : Part} (built : parser.Builds (part :: parts) tokens nodes) :
    ∃ first rest item items, tokens = first ++ rest ∧ nodes = item :: items ∧
      parser.Builds [part] first [item] ∧ parser.Builds parts rest items := by
  generalize row : part :: parts = production at built
  cases built with
  | nil => cases row
  | token token rest =>
    cases row
    exact ⟨[token], _, _, _, rfl, rfl, .token token .nil, rest⟩
  | @rule _ _ _ inner _ _ _ _ found body made rest =>
    cases row
    have one := ChartParser.Builds.rule found body made .nil
    rw [List.append_nil] at one
    exact ⟨inner, _, _, _, rfl, rfl, one, rest⟩

theorem token_of_builds {kind : Kind} (built : parser.Builds [.token kind] tokens nodes) :
    ∃ token : Token, token.kind = kind ∧ tokens = [token] ∧
      nodes = [parser.interpretation.leaf token] := by
  generalize row : [Part.token kind] = production at built
  cases built with
  | nil | rule => cases row
  | token token rest =>
    cases row
    cases rest
    exact ⟨token, rfl, rfl, rfl⟩

/-- What is built for a name is what one of its rules is made into. -/
theorem Parses.rule_of_builds (parses : Parses goal expansion grammar parser)
    (built : parser.Builds [.rule name] tokens [node]) :
    ∃ id parts operands, grammar.rule? id = some ⟨name, parts⟩ ∧
      parser.Builds parts tokens operands ∧ (builder grammar).reduce id operands = .ok node := by
  obtain ⟨typeContext, rfl⟩ := parses.made
  generalize only : [Part.rule name] = begin at built
  generalize root : [node] = values at built
  cases built with
  | nil | token => cases only
  | @rule id rule parts inner rest operands values value found body made none =>
    obtain ⟨own, parts⟩ := rule
    cases root
    cases only
    cases none
    rw [List.append_nil]
    exact ⟨id, parts, operands, found, body, made⟩

/-- The rule of the goal is made of the end of the input alone, or of a name and the end. -/
theorem Parses.goal_of_builds (parses : Parses goal expansion grammar parser)
    (built : parser.Builds [.rule grammar.start] tokens [node]) :
    ∃ (finish : Token) (operands : List Node), finish.kind = .endOfInput ∧
      (((if (grammar.collection? "CompilationUnit").isSome then unitGoal else first).run
        ⟨Grammar.goalName, operands ++ [.ofToken finish]⟩).1 = .ok node) ∧
      (tokens = [finish] ∧ operands = [] ∧ goal.names = ["CompilationUnit"] ∨
        ∃ name inner operand, tokens = inner ++ [finish] ∧ operands = [operand] ∧
          goal.names = [name] ∧ parser.Builds [.rule name] inner [operand]) := by
  rw [parses.isFor.start] at built
  obtain ⟨id, parts, operands, found, body, made⟩ := parses.rule_of_builds built
  have origin : Expansion.Origin _ _ Grammar.goalName parts :=
    parses.isFor.faithful.sound.origins _ parts (parses.isFor.rules _ (Grammar.rule?_mem found))
  have other : ¬ TreeBuilder.isRepetition Grammar.goalName := by decide
  cases origin with
  | once named => exact absurd (parses.isFor.named.names _ _ named) other
  | again named => exact absurd (parses.isFor.named.names _ _ named) other
  | alternative among same spelled =>
    rcases List.mem_cons.mp among with rfl | among
    · have rows := IsFor.parts_of_goal parses.isFor.isGoal spelled
      have several : (⟨Grammar.goalName, parts⟩ : Rule).unitTarget? = none := by
        rcases rows with ⟨rfl, -⟩ | ⟨_, rfl, -⟩ <;> rfl
      rw [reduce_construct found other several (if_pos rfl)] at made
      obtain ⟨typeContext, rfl⟩ := parses.made
      rcases rows with ⟨rfl, names⟩ | ⟨name, rfl, names⟩
      · obtain ⟨finish, ended, rfl, rfl⟩ := token_of_builds body
        exact ⟨finish, [], ended, made, .inl ⟨rfl, rfl, names⟩⟩
      · obtain ⟨inner, last, operand, others, rfl, rfl, inside, rest⟩ := uncons_of_builds body
        obtain ⟨finish, ended, rfl, rfl⟩ := token_of_builds rest
        exact ⟨finish, [operand], ended, made, .inr ⟨name, inner, operand, rfl, rfl, names, inside⟩⟩
    · have shape := (Grammar.shapeOf_of_mem_rules among).1
      rw [same, shapeOf_goalName] at shape
      cases shape

/-- A goal is never made without the end mark. -/
theorem Parses.passed_of_builds (parses : Parses goal expansion grammar parser)
    (inside : ∀ token ∈ tokens, token.kind ≠ .endOfInput) {finish : Token} {passed : List Token}
    (begins : passed <+: [finish])
    (built : parser.Builds [.rule grammar.start] (tokens ++ passed) [node]) :
    passed = [finish] := by
  rcases passed with _ | ⟨own, more⟩
  · obtain ⟨last, _, ended, -, ⟨same, -⟩ | ⟨_, inner, _, same, -⟩⟩ := parses.goal_of_builds built
    all_goals
      rw [List.append_nil] at same
      exact absurd ended (inside last (by simp [same]))
  · obtain ⟨rfl, more⟩ := List.cons_prefix_cons.mp begins
    rw [List.prefix_nil.mp more]

/-- The goal of a fragment passes on what comes before the end mark. -/
theorem Parses.fragment_of_builds (parses : Parses (.rule name) expansion grammar parser)
    (part : name ≠ "CompilationUnit") {finish : Token}
    (built : parser.Builds [.rule grammar.start] (tokens ++ [finish]) [node]) :
    parser.Builds [.rule name] tokens [node] := by
  obtain ⟨last, operands, -, ran, ⟨-, -, units⟩ | ⟨_, inner, operand, same, rfl, ⟨rfl⟩, below⟩⟩ :=
    parses.goal_of_builds built
  · exact absurd (List.singleton_inj.mp units) part
  have fragment : (grammar.collection? "CompilationUnit").isSome = false :=
    Bool.eq_false_iff.mpr fun units =>
      part (List.mem_singleton.mp (parses.isFor.units units)).symm
  rw [fragment] at ran
  cases ran
  rwa [(List.append_inj' same rfl).1]

/-- A text whose tokens the grammar of a fragment generates is parsed as what is built of them. -/
theorem Parses.parse_of_fragment (parses : Parses (.rule name) expansion grammar parser)
    (part : name ≠ "CompilationUnit") {source : String} {place : Position}
    (waiting : (Lexer.ofString source).pending = tokens ++ [Token.endOfInput place])
    (plain : ∀ token ∈ tokens, token.kind ≠ .endOfInput ∧ token.kind ≠ .invalid)
    (derived : grammar.Generates [.rule grammar.start] (tokens.map (·.kind) ++ [Kind.endOfInput]))
    (shifts : ∀ first (token : Token) rest, tokens = first ++ token :: rest → token.isJoined →
      grammar.Viable (first.map (·.kind) ++ [Kind.rightShift])) :
    ∃ root, parser.parse (.ofString source) = .ok root ∧ (∀ token ∈ tokens, Fitting token) ∧
      parser.Builds [.rule name] tokens [root] := by
  obtain ⟨root, passed, parsed, begins, builds⟩ :=
    parses.parse_of_generates waiting plain derived shifts
  obtain rfl := parses.passed_of_builds (fun token member => (plain token member).1) begins builds
  refine ⟨root, parsed, fun token member => ?_, parses.fragment_of_builds part builds⟩
  have waits : token ∈ (Lexer.ofString source).pending := by simp [waiting, member]
  exact (fitting_of_pending waits (plain token member).2).2

/-- A name with a rule has a collection. -/
theorem isSome_collection? {id : Nat} (found : grammar.rule? id = some ⟨name, parts⟩) :
    (grammar.collection? name).isSome := by
  have member := Grammar.rule?_mem found
  rw [grammar.rules_eq, List.mem_toArray] at member
  obtain ⟨collection, among, inside⟩ := List.mem_flatMap.mp member
  obtain ⟨_, -, same⟩ := List.mem_map.mp inside
  obtain ⟨rfl, -⟩ := Rule.mk.inj same
  exact List.find?_isSome.mpr ⟨collection, among, beq_self_eq_true _⟩

/-! ### Shapes of what is built -/

theorem sublist_flatMap {α β : Type} (f : α → List β) {value : α} {values : List α}
    (member : value ∈ values) : (f value).Sublist (values.flatMap f) :=
  List.sublist_flatten_of_mem (List.mem_map_of_mem member)

/-- What is known of names may be replaced by what follows from it for some of the tokens. -/
theorem Made.mono {Weaker : String → List Token → Node → Prop}
    (made : Made Holds elements tokens parts nodes)
    (weaker : ∀ name inner node, inner.Sublist tokens → Holds name inner node →
      Weaker name inner node) : Made Weaker elements tokens parts nodes := by
  induction made with
  | nil => exact .nil
  | token token same _ ih =>
    exact .token token same
      (ih fun name inner node inside => weaker name inner node (.cons _ inside))
  | rule holds _ ih =>
    refine .rule (weaker _ _ _ (List.sublist_append_left _ _) holds) (ih ?_)
    exact fun name inner node inside =>
      weaker name inner node (inside.trans (List.sublist_append_right _ _))
  | absent body _ ih => exact .absent body (ih weaker)
  | never body _ ih => exact .never body (ih weaker)
  | present _ _ insideIh restIh =>
    exact .present
      (insideIh fun name inner node inside =>
        weaker name inner node (inside.trans (List.sublist_append_left _ _)))
      (restIh fun name inner node inside =>
        weaker name inner node (inside.trans (List.sublist_append_right _ _)))
  | times name element occurrences some _ _ eachIh restIh =>
    refine .times name element occurrences some (fun occurrence member => ?_)
      (restIh fun name inner node inside =>
        weaker name inner node (inside.trans (List.sublist_append_right _ _)))
    refine eachIh occurrence member fun name inner node inside => weaker name inner node ?_
    exact (inside.trans (sublist_flatMap (·.1) member)).trans
      (List.sublist_append_left _ _)

theorem RowMade.mono {Weaker : String → List Token → Node → Prop}
    (row : RowMade Holds repetitions parts tokens nodes)
    (weaker : ∀ name inner node, inner.Sublist tokens → Holds name inner node →
      Weaker name inner node) : RowMade Weaker repetitions parts tokens nodes := by
  induction row with
  | nil => exact .nil
  | @cons part parts own tokens node nodes head _ ih =>
    have here (name : String) (inner : List Token) (node : Node) (inside : inner.Sublist own)
        (holds : Holds name inner node) : Weaker name inner node :=
      weaker name inner node (inside.trans (List.sublist_append_left _ _)) holds
    refine .cons ?_ (ih fun name inner node inside =>
      weaker name inner node (inside.trans (List.sublist_append_right _ _)))
    cases head with
    | token token => exact .token token
    | rule holds times =>
      refine .rule (fun known => here _ _ _ (List.Sublist.refl _) (holds known))
        fun body named => ?_
      obtain ⟨element, occurrences, some, rfl, same, each⟩ := times body named
      refine ⟨element, occurrences, some, rfl, same, fun occurrence member => ?_⟩
      exact (each occurrence member).mono fun name inner node inside =>
        here name inner node (inside.trans (sublist_flatMap (·.1) member))

/-- The node is of the shape of the name. -/
def Typed (name : String) (node : Node) : Prop :=
  ∀ shape, shapeOf name = some shape → shape.Holds node

/-- Whether what the name stands for is no list and of one of the sorts. -/
def isOf (sorts : List NodeSort) (name : String) : Bool :=
  (shapeOf name).any fun shape => shape.items.isEmpty && shape.sorts.all (· ∈ sorts)

theorem exists_of_isOf {sorts : List NodeSort} (isOf : isOf sorts name) :
    ∃ shape, shapeOf name = some shape ∧
      ∀ node, shape.Holds node → ∃ sort ∈ sorts, sort.Holds node := by
  obtain ⟨shape, found, kept⟩ := (Option.any_eq_true _ _).mp isOf
  obtain ⟨flat, within⟩ := Bool.and_eq_true_iff.mp kept
  refine ⟨shape, found, fun node holds => ?_⟩
  obtain ⟨sort, listed, holds⟩ := sort_of_flat (List.isEmpty_iff.mp flat) holds
  exact ⟨sort, by simpa using List.all_eq_true.mp within sort listed, holds⟩

/-- What such a name stands for is of one of the sorts. -/
theorem Typed.sort {sorts : List NodeSort} (typed : Typed name node) (isOf : isOf sorts name) :
    ∃ sort ∈ sorts, sort.Holds node := by
  obtain ⟨shape, found, each⟩ := exists_of_isOf isOf
  exact each node (typed shape found)

/-- Nodes that are of the shapes of the names match the row of the elements. -/
theorem Made.matches
    (made : Made (fun name _ node => Typed name node) elements tokens parts nodes)
    (known : ∀ name ∈ bodyNames elements, (shapeOf name).isSome)
    (plain : ∀ body ∈ rowBodies elements, plainBody body)
    (fit : ∀ token ∈ tokens, Fitting token) : Piece.Matches (rowOf elements) nodes := by
  induction made with
  | nil => exact .nil
  | token token same _ ih =>
    obtain ⟨here, later⟩ := List.forall_mem_cons.mp fit
    subst same
    refine .part (Shape.holds_of.mpr ⟨_, List.mem_singleton_self _, here⟩) (ih ?_ plain later)
    simpa [bodyNames, names] using known
  | rule typed _ ih =>
    simp only [bodyNames, names, List.singleton_append, List.forall_mem_cons] at known
    obtain ⟨shape, found⟩ := Option.isSome_iff_exists.mp known.1
    obtain ⟨-, later⟩ := List.forall_mem_append.mp fit
    refine .part ?_ (ih known.2 plain later)
    simpa [found] using typed shape found
  | absent _ _ ih | never _ _ ih =>
    exact .skip (ih (List.forall_mem_append.mp known).2 (List.forall_mem_append.mp plain).2 fit)
  | present _ _ insideIh restIh =>
    obtain ⟨knownHere, knownLater⟩ := List.forall_mem_append.mp known
    obtain ⟨plainHere, plainLater⟩ := List.forall_mem_append.mp plain
    obtain ⟨here, later⟩ := List.forall_mem_append.mp fit
    exact .take (insideIh knownHere plainHere here) (restIh knownLater plainLater later)
  | @times body _ _ _ _ name element occurrences some _ _ eachIh restIh =>
    obtain ⟨knownHere, knownLater⟩ := List.forall_mem_append.mp known
    obtain ⟨plainHere, plainLater⟩ := List.forall_mem_append.mp plain
    obtain ⟨here, later⟩ := List.forall_mem_append.mp fit
    obtain ⟨own, inner⟩ := List.forall_mem_cons.mp plainHere
    have adds (occurrence : List Token × Production × List Node)
        (member : occurrence ∈ occurrences) := bodyItems_of_matches own
      (eachIh occurrence member knownHere inner fun token among =>
        here token (List.mem_flatMap.mpr ⟨occurrence, member, among⟩))
    refine .take (.part (Shape.holds_listOf.mpr ⟨_, _, rfl, ?_, ?_⟩) .nil)
      (restIh knownLater plainLater later)
    · obtain ⟨first, more, rfl⟩ := List.exists_cons_of_ne_nil some
      intro none
      exact (adds first List.mem_cons_self).1
        (List.flatMap_eq_nil_iff.mp none first List.mem_cons_self)
    · intro item member
      obtain ⟨occurrence, among, inside⟩ := List.mem_flatMap.mp member
      exact (adds occurrence among).2.1 item inside

/-- What every alternative hands on holds of what is built of tokens of texts, all of which is of
the shapes of the names. -/
theorem Parses.row_of_typed (parses : Parses goal expansion grammar parser)
    (step : ∀ alternative ∈ Grammar.rules, ∀ (tokens : List Token) (parts : Production)
      (nodes : List Node) (node : Node), (∀ token ∈ tokens, Fitting token) →
        Made (fun name tokens node => Typed name node ∧ Holds name tokens node)
            alternative.elements tokens parts nodes →
          Reduces alternative.name parts nodes node → Typed alternative.name node →
            Holds alternative.name tokens node)
    (fit : ∀ token ∈ tokens, Fitting token) (built : parser.Builds parts tokens nodes) :
    RowMade (fun name tokens node => Typed name node ∧ Holds name tokens node)
      expansion.repetitions parts tokens nodes := by
  have row : RowMade (fun name tokens node => (∀ token ∈ tokens, Fitting token) →
      Typed name node ∧ Holds name tokens node) expansion.repetitions parts tokens nodes := by
    refine parses.row_of_steps ?_ built
    intro alternative member tokens parts nodes node built made reduces fit
    have typed : Typed alternative.name node := by
      obtain ⟨fits, -⟩ := parses.fits_of_builds built fit
      cases fits with
      | cons head _ => exact head.collection
    refine ⟨typed, step alternative member tokens parts nodes node fit ?_ reduces typed⟩
    exact made.mono fun _ _ _ inside holds =>
      holds fun token among => fit token (inside.subset among)
  exact row.mono fun _ _ _ inside holds => holds fun token among => fit token (inside.subset among)

/-- What is built for a name that is an alternative's, a repetition's or the goal's. -/
theorem Parses.name_of_builds (parses : Parses goal expansion grammar parser)
    (built : parser.Builds [.rule name] tokens [node]) :
    name = Grammar.goalName ∨ name ∈ Grammar.rules.map (·.name) ∨
      ∃ body, (body, name) ∈ expansion.repetitions := by
  obtain ⟨id, parts, operands, found, -, -⟩ := parses.rule_of_builds built
  cases parses.isFor.faithful.sound.origins name parts
    (parses.isFor.rules _ (Grammar.rule?_mem found)) with
  | once named | again named => exact .inr (.inr ⟨_, named⟩)
  | alternative among same =>
    rcases List.mem_cons.mp among with rfl | among
    · exact .inl same.symm
    · exact .inr (.inl (List.mem_map.mpr ⟨_, among, same⟩))

/-! ### Leaves -/

open OperandM

theorem items_ofToken (token : Token) : (Node.ofToken token).items = [.ofToken token] := by
  unfold Node.ofToken
  split
  · rfl
  · split <;> rfl

/-- Braces and words are leaves as they are. -/
theorem ofToken_of_fitting {token : Token} (fit : Fitting token)
    (plain : NodeSort.ofKind token.kind = .token token.kind) :
    Node.ofToken token = .token token := by
  unfold Fitting at fit
  rw [plain] at fit
  unfold Node.ofToken at fit ⊢
  split at fit
  · cases fit
  · rename_i other
    rw [if_neg other]
    split at fit
    · cases fit
    · rfl

theorem run_expect {token : Token} {kind : Kind} (fit : Fitting token) (same : token.kind = kind)
    (plain : NodeSort.ofKind kind = .token kind) :
    (expect kind).run ⟨name, .ofToken token :: nodes⟩ = (.ok token, ⟨name, nodes⟩) := by
  subst same
  rw [ofToken_of_fitting fit plain]
  exact run_nextAs (by simp [tokenOf?, token?])

theorem run_identifier {token : Token} (same : token.kind = .identifier) :
    identifier.run ⟨name, .ofToken token :: nodes⟩ =
      (.ok ⟨token.text, token.position⟩, ⟨name, nodes⟩) := by
  rw [Node.ofToken, if_pos same]
  exact run_nextAs rfl

theorem run_items {items : List Node}
    (same : (nodes.filter (!·.isToken)).flatMap Node.items = items) :
    OperandM.items.run ⟨name, nodes⟩ = (.ok items, ⟨name, []⟩) :=
  congrArg (fun nodes => (Except.ok nodes, (⟨name, []⟩ : Operands))) same

end JavaFrontend.Java
