import JavaFrontend.Proofs.Java.Sieve
import JavaFrontend.Proofs.Java.TypeSyntax

/-!
What is built of the tokens of types. Of the alternatives of the grammar only those for types are
left, and each hands on what its tokens are written for: so a type is built of the tokens of a type,
and it is the one that they show (`Written.of_builds`).
-/

namespace JavaFrontend.Java

open OperandM JavaFrontend.Java.Reduction

/-! ### What is left of the grammar -/

open Java.Grammar in
/-- The alternatives for the tokens of types. -/
def typeAlternatives : List Alternative :=
  primitiveWords.map (fun word => ⟨"PrimitiveType", [token word]⟩) ++
  define "Type" [["PrimitiveType"], ["ClassType"], ["ArrayType"]] ++
  define "ReferenceType" [["ClassType"], ["ArrayType"]] ++
  define "ClassType" [["SimpleClassType", many [token .dot, "SimpleClassType"]]] ++
  define "SimpleClassType" [[token .identifier, maybe ["TypeArguments"]]] ++
  define "ArrayType" [["PrimitiveType", "Dims"], ["ClassType", "Dims"]] ++
  define "Dims" [
    [token .leftBracket, token .rightBracket], ["Dims", token .leftBracket, token .rightBracket]] ++
  define "TypeArguments" [
    [token .less, "TypeArgument", many [token .comma, "TypeArgument"], token .greater]] ++
  define "TypeArgument" [["ReferenceType"], ["Wildcard"]] ++
  define "Wildcard" [
    [token .question], [token .question, token .extendsWord, "ReferenceType"],
    [token .question, token .superWord, "ReferenceType"]]

theorem sieve_type : Sieve typeKinds ["Annotation"] typeAlternatives where
  starves := by decide +kernel
  keeps := by decide +kernel
  closed := by decide

/-! ### What is built -/

/-- The names that are left. -/
inductive TypeName where
  | type | primitiveType | referenceType | classType | simpleClassType | arrayType | dims
  | typeArguments | typeArgument | wildcard

namespace TypeName

def name : TypeName → String
  | .type => "Type"
  | .primitiveType => "PrimitiveType"
  | .referenceType => "ReferenceType"
  | .classType => "ClassType"
  | .simpleClassType => "SimpleClassType"
  | .arrayType => "ArrayType"
  | .dims => "Dims"
  | .typeArguments => "TypeArguments"
  | .typeArgument => "TypeArgument"
  | .wildcard => "Wildcard"

theorem name_injective : Function.Injective name := by
  have distinct : ([.type, .primitiveType, .referenceType, .classType, .simpleClassType, .arrayType,
      .dims, .typeArguments, .typeArgument, .wildcard].map name).Nodup := by
    decide
  intro first second same
  exact List.inj_on_of_nodup_map distinct (by cases first <;> simp) (by cases second <;> simp) same

/-- What the tokens for the name and the node that is built of them are. -/
def Shows : TypeName → List Token → Node → Prop
  | .type => Written .type
  | .primitiveType => fun tokens node => ∃ word : Token, word.kind ∈ primitiveWords ∧
      tokens = [word] ∧ node = .type (.primitiveType .nil word.kind word.position)
  | .referenceType | .arrayType => fun tokens node =>
      Written .type tokens node ∧ IsReference (tokens.map (·.kind))
  | .classType => Written .classType
  | .simpleClassType => Written .segment
  | .dims => fun tokens node => ∃ count, 0 < count ∧ tokens.map (·.kind) = pairsOf count ∧
      node = .dims (count % UInt32.size)
  | .typeArguments => fun tokens node => ∃ (less greater : Token) (inner : List Token)
      (arguments : List (Tree .typeArgument)), less.kind = .less ∧ greater.kind = .greater ∧
        tokens = less :: (inner ++ [greater]) ∧ node = .typeArguments arguments ∧
        Written .arguments inner node
  | .typeArgument | .wildcard => fun tokens node => ∃ argument, typeArgument? node = some argument ∧
      Written .argument tokens (.typeArgument argument)

end TypeName

/-- What is built for a name shows what it was built of. -/
def ShownType (name : String) (tokens : List Token) (node : Node) : Prop :=
  ∀ part : TypeName, part.name = name → part.Shows tokens node

variable {name : String} {parts : Production} {nodes : List Node} {part : TypeName}

theorem ShownType.of (part : TypeName) (shows : part.Shows tokens node) :
    ShownType part.name tokens node :=
  fun _ same => TypeName.name_injective same ▸ shows

theorem ShownType.shows (shown : ShownType part.name tokens node) : part.Shows tokens node :=
  shown part rfl

/-- A name alone hands on what it shows. -/
theorem shows_of_single (inner : TypeName)
    (made : Made ShownType [.rule inner.name] tokens parts nodes)
    (reduces : Reduces name parts nodes node) : inner.Shows tokens node := by
  cases made with
  | @rule _ _ own _ _ operand _ shown rest =>
    cases rest
    obtain ⟨rfl⟩ : [operand] = [node] := reduces
    rw [List.append_nil]
    exact shown.shows

/-- What begins with a name is no primitive type. -/
theorem Written.isReference_of_class (written : Written .classType tokens node) :
    IsReference (tokens.map (·.kind)) := by
  obtain ⟨first, rest, rfl, isName⟩ := written.begins
  rintro word known same
  obtain rfl : first.kind = word := (List.cons.inj same).1
  rw [List.mem_singleton.mp isName] at known
  exact absurd known (by decide)

theorem Written.classType (written : Written .classType tokens node) :
    ∃ segments, node = .type (.classType segments) := by
  generalize same : TypeSort.classType = sort at written
  induction written with
  | type | primitive | ofClass | bare | angled | single | several | exact | any | bounded =>
    cases same
  | last inner =>
    cases inner with
    | bare | angled => exact ⟨_, rfl⟩
  | dotted => exact ⟨_, rfl⟩

/-- Brackets make a type of what is written in front of them. -/
theorem Written.withoutBrackets {element : Tree .type}
    (written : Written .element tokens (.type element)) : Written .type tokens (.type element) := by
  have whole := Written.type written [] 0 rfl
  rwa [List.append_nil] at whole

theorem shown_of_type (part : TypeName)
    (made : Made ShownType [.rule part.name] tokens parts nodes)
    (among : part = .primitiveType ∨ part = .classType ∨ part = .arrayType)
    (reduces : Reduces "Type" parts nodes node) : Written .type tokens node := by
  have shows := shows_of_single part made reduces
  rcases among with rfl | rfl | rfl
  · obtain ⟨word, known, rfl, rfl⟩ := shows
    exact (Written.primitive word known).withoutBrackets
  · obtain ⟨segments, rfl⟩ := Written.classType shows
    exact (Written.ofClass shows).withoutBrackets
  · exact shows.1

theorem shown_of_reference (part : TypeName)
    (made : Made ShownType [.rule part.name] tokens parts nodes)
    (among : part = .classType ∨ part = .arrayType)
    (reduces : Reduces "ReferenceType" parts nodes node) :
    TypeName.referenceType.Shows tokens node := by
  have shows := shows_of_single part made reduces
  rcases among with rfl | rfl
  · obtain ⟨segments, rfl⟩ := Written.classType shows
    exact ⟨(Written.ofClass shows).withoutBrackets, shows.isReference_of_class⟩
  · exact shows

/-- Brackets behind a word or a name. -/
theorem shown_of_array (part : TypeName)
    (made : Made ShownType [.rule part.name, .rule TypeName.dims.name] tokens parts nodes)
    (among : part = .primitiveType ∨ part = .classType)
    (reduces : Reduces "ArrayType" parts nodes node) : TypeName.arrayType.Shows tokens node := by
  cases made with
  | @rule _ _ inner _ _ operand _ shown rest =>
    cases rest with
    | @rule _ _ brackets _ _ dims _ pairs rest =>
      cases rest
      obtain ⟨count, some, kinds, rfl⟩ := pairs.shows
      obtain ⟨element, rfl, written⟩ : ∃ element, operand = .type element ∧
          Written .element inner (.type element) := by
        have shows := shown.shows
        rcases among with rfl | rfl
        · obtain ⟨word, known, rfl, rfl⟩ := shows
          exact ⟨_, rfl, .primitive word known⟩
        · obtain ⟨segments, rfl⟩ := Written.classType shows
          exact ⟨_, rfl, .ofClass shows⟩
      obtain ⟨_, found, ran⟩ := reduces
      cases found
      cases ran
      rw [List.append_nil]
      refine ⟨written.type brackets count kinds, fun word known same => ?_⟩
      obtain ⟨first, rest, rfl, -⟩ := written.begins
      rw [List.map_append, kinds] at same
      obtain ⟨more, rfl⟩ := Nat.exists_eq_succ_of_ne_zero some.ne'
      simp [pairsOf, List.replicate_succ] at same

theorem shown_of_pair (fit : ∀ token ∈ tokens, Fitting token)
    (made : Made ShownType [.token .leftBracket, .token .rightBracket] tokens parts nodes)
    (reduces : Reduces "Dims" parts nodes node) : TypeName.dims.Shows tokens node := by
  cases made with
  | token left isLeft made =>
    cases made with
    | token right isRight made =>
      cases made
      obtain ⟨_, found, ran⟩ := reduces
      cases found
      rw [ofToken_of_fitting (fit left (by simp)) (by rw [isLeft]; rfl)] at ran
      cases ran
      exact ⟨1, Nat.one_pos, by simp [isLeft, isRight, pairsOf], rfl⟩

theorem shown_of_pairs (fit : ∀ token ∈ tokens, Fitting token)
    (made : Made ShownType [.rule TypeName.dims.name, .token .leftBracket, .token .rightBracket]
      tokens parts nodes)
    (reduces : Reduces "Dims" parts nodes node) : TypeName.dims.Shows tokens node := by
  cases made with
  | @rule _ _ inner _ _ dims _ shown made =>
    cases made with
    | token left isLeft made =>
      cases made with
      | token right isRight made =>
        cases made
        obtain ⟨count, some, pairs, rfl⟩ := shown.shows
        obtain ⟨_, found, ran⟩ := reduces
        cases found
        cases ran
        refine ⟨count + 1, Nat.succ_pos count, ?_, ?_⟩
        · rw [List.map_append, pairs, pairsOf, pairsOf, List.replicate_succ', List.flatten_append]
          simp [isLeft, isRight]
        · exact congrArg Node.dims (Nat.mod_add_mod count UInt32.size 1)

/-- What stands behind separators, with the nodes that are built of it. -/
theorem separated (part : TypeName) {separator : Kind}
    (plain : NodeSort.ofKind separator = .token separator)
    (single : ∀ tokens node, part.Shows tokens node → node.isToken = false)
    (occurrences : List (List Token × Production × List Node))
    (fit : ∀ token ∈ occurrences.flatMap (·.1), Fitting token)
    (each : ∀ occurrence ∈ occurrences, Made ShownType [.token separator, .rule part.name]
      occurrence.1 occurrence.2.1 occurrence.2.2) :
    ∃ rows : List (Token × List Token × Node),
      (∀ row ∈ rows, row.1.kind = separator ∧ part.Shows row.2.1 row.2.2) ∧
      occurrences.flatMap (·.1) = rows.flatMap (fun row => row.1 :: row.2.1) ∧
      (occurrences.flatMap fun occurrence => TreeBuilder.bodyItems false occurrence.2.2) =
        rows.map (·.2.2) := by
  induction occurrences with
  | nil => exact ⟨[], by simp, rfl, rfl⟩
  | cons occurrence occurrences ih =>
    obtain ⟨here, later⟩ := List.forall_mem_cons.mp each
    rw [List.flatMap_cons] at fit
    obtain ⟨fitHere, fitLater⟩ := List.forall_mem_append.mp fit
    obtain ⟨rows, others, tokens, nodes⟩ := ih fitLater later
    obtain ⟨inner, parts, items⟩ := occurrence
    cases here with
    | token word isWord rest =>
      cases rest with
      | @rule _ _ inner _ _ node _ shown rest =>
        cases rest
        have shows := shown.shows
        refine ⟨(word, inner, node) :: rows, List.forall_mem_cons.mpr ⟨⟨isWord, shows⟩, others⟩,
          ?_, ?_⟩
        · simp [tokens]
        · have leaf : Node.ofToken word = .token word :=
            ofToken_of_fitting (fitHere word (by simp)) (by rw [isWord, plain])
          have isToken : (Node.token word).isToken := rfl
          rw [List.flatMap_cons, nodes, leaf]
          simp [TreeBuilder.bodyItems, isToken, single _ _ shows]

/-- Segments with dots between them are a class type. -/
theorem written_of_segments {first : Row .segment} (rows : List (Token × List Token × Node))
    (written : Written .segment tokens (.type (.classType first)))
    (each : ∀ row ∈ rows, row.1.kind = .dot ∧ Written .segment row.2.1 row.2.2) :
    ∃ others : List (Row .segment),
      rows.map (·.2.2) = others.map (fun own => .type (.classType own)) ∧
      Written .classType (tokens ++ rows.flatMap fun row => row.1 :: row.2.1)
        (.type (.classType (first.toList ++ others.flatMap Row.toList))) := by
  induction rows generalizing tokens first with
  | nil => exact ⟨[], rfl, by simpa using Written.last written⟩
  | cons row rows ih =>
    obtain ⟨⟨isDot, here⟩, later⟩ := List.forall_mem_cons.mp each
    obtain ⟨dot, inner, node⟩ := row
    obtain ⟨own, rfl⟩ := Written.classType (Written.last here)
    obtain ⟨others, nodes, more⟩ := ih here later
    exact ⟨own :: others, by simp [nodes], by simpa using written.dotted dot isDot more⟩

/-- Arguments with commas between them stand between `<` and `>`. -/
theorem written_of_arguments {first : Tree .typeArgument}
    (rows : List (Token × List Token × Node))
    (written : Written .argument tokens (.typeArgument first))
    (each : ∀ row ∈ rows, row.1.kind = .comma ∧ TypeName.typeArgument.Shows row.2.1 row.2.2) :
    ∃ others, (rows.map (·.2.2)).mapM typeArgument? = some others ∧
      Written .arguments (tokens ++ rows.flatMap fun row => row.1 :: row.2.1)
        (.typeArguments (first :: others)) := by
  induction rows generalizing tokens first with
  | nil => exact ⟨[], rfl, by simpa using Written.single written⟩
  | cons row rows ih =>
    obtain ⟨⟨isComma, argument, chosen, here⟩, later⟩ := List.forall_mem_cons.mp each
    obtain ⟨comma, inner, node⟩ := row
    obtain ⟨others, nodes, more⟩ := ih here later
    exact ⟨argument :: others, by simp [List.mapM_cons, chosen, nodes],
      by simpa using written.several comma isComma more⟩

/-- If what is made of each value is selected, then what is made of all of them is. -/
theorem mapM_map_eq_some {α β : Type} {make : α → Node} {select : Node → Option β} {value : α → β}
    (chosen : ∀ own, select (make own) = some (value own)) (owns : List α) :
    (owns.map make).mapM select = some (owns.map value) := by
  induction owns with
  | nil => rfl
  | cons own owns ih =>
    rw [List.map_cons, List.mapM_cons, chosen, ih]
    rfl

theorem run_classType (rows : List (Row .segment))
    (same : (nodes.filter (!·.isToken)).flatMap Node.items =
      rows.map fun own => .type (.classType own)) :
    (classType.run ⟨name, nodes⟩).1 = .ok (.type (.classType (rows.flatMap Row.toList))) := by
  have types : (rows.map fun own => Node.type (.classType own)).mapM type? =
      some (rows.map .classType) := by
    refine mapM_map_eq_some ?_ rows
    exact fun _ => rfl
  have segments : ((rows.map Tree.classType).map Node.type).mapM segments? =
      some (rows.map Row.toList) := by
    rw [List.map_map]
    refine mapM_map_eq_some ?_ rows
    exact fun _ => rfl
  unfold classType OperandM.types
  simp only [bind_assoc]
  rw [run_bind (run_items same), run_bind (run_allAs types _), run_bind (run_allAs segments _),
    List.flatMap_def]
  rfl

theorem shown_of_classType (fit : ∀ token ∈ tokens, Fitting token)
    (made : Made ShownType [.rule TypeName.simpleClassType.name,
      .repeated [.token .dot, .rule TypeName.simpleClassType.name]] tokens parts nodes)
    (reduces : Reduces "ClassType" parts nodes node) : TypeName.classType.Shows tokens node := by
  cases made with
  | @rule _ _ inner _ _ operand _ shown rest =>
    have written : Written .segment inner operand := shown.shows
    cases rest with
    | never _ rest =>
      cases rest
      obtain ⟨rfl⟩ : [operand] = [node] := reduces
      rw [List.append_nil]
      exact .last written
    | times _ element occurrences _ each rest =>
      cases rest
      obtain ⟨first, rfl⟩ := Written.classType (Written.last written)
      obtain ⟨rows, shows, tokens, items⟩ := separated .simpleClassType rfl (fun _ _ shows => by
        obtain ⟨own, rfl⟩ := Written.classType (Written.last shows)
        rfl) occurrences (fun token member => fit token (by simp [member])) each
      obtain ⟨others, nodes, whole⟩ := written_of_segments rows written shows
      obtain ⟨_, found, ran⟩ := reduces
      cases found
      rw [run_classType (first :: others) (by simp [items, nodes, Node.isToken, Node.tokenKind?,
        Node.items])] at ran
      cases ran
      rw [List.append_nil, tokens]
      exact whole

theorem shown_of_name (made : Made ShownType [.token .identifier,
      .optional [.rule TypeName.typeArguments.name]] tokens parts nodes)
    (reduces : Reduces "SimpleClassType" parts nodes node) :
    TypeName.simpleClassType.Shows tokens node := by
  cases made with
  | token own isName made =>
    have leaf : Node.ofToken own = .identifier ⟨own.text, own.position⟩ := if_pos isName
    cases made with
    | absent _ made =>
      cases made
      obtain ⟨_, found, ran⟩ := reduces
      cases found
      rw [leaf] at ran
      cases ran
      exact .bare own isName
    | present inside made =>
      cases made
      cases inside with
      | rule shown rest =>
        cases rest
        obtain ⟨less, greater, inner, arguments, isLess, isGreater, rfl, rfl, written⟩ :=
          shown.shows
        obtain ⟨_, found, ran⟩ := reduces
        cases found
        rw [leaf] at ran
        cases ran
        simp only [List.append_nil]
        exact .angled own less isName isLess written greater isGreater

theorem not_isToken_of_argument {argument : Tree .typeArgument}
    (chosen : typeArgument? node = some argument) : node.isToken = false ∧ node.items = [node] := by
  cases node <;> first | exact ⟨rfl, rfl⟩ | cases chosen

theorem run_typeArgumentList {items : List Node} {arguments : List (Tree .typeArgument)}
    (same : (nodes.filter (!·.isToken)).flatMap Node.items = items)
    (chosen : items.mapM typeArgument? = some arguments) :
    (typeArgumentList.run ⟨name, nodes⟩).1 = .ok (.typeArguments arguments) := by
  unfold typeArgumentList
  rw [run_bind (run_items same), run_bind (run_allAs chosen _)]
  rfl

theorem shown_of_arguments (fit : ∀ token ∈ tokens, Fitting token)
    (made : Made ShownType [.token .less, .rule TypeName.typeArgument.name,
      .repeated [.token .comma, .rule TypeName.typeArgument.name], .token .greater] tokens parts
      nodes)
    (reduces : Reduces "TypeArguments" parts nodes node) :
    TypeName.typeArguments.Shows tokens node := by
  have angle {angle : Token} {kind : Kind} (same : angle.kind = kind)
      (plain : NodeSort.ofKind kind = .token kind) (member : angle ∈ tokens) :
      (Node.ofToken angle).isToken := by
    rw [ofToken_of_fitting (fit angle member) (by rw [same, plain])]
    rfl
  cases made with
  | token less isLess made =>
    cases made with
    | @rule _ _ inner _ _ operand _ shown rest =>
      obtain ⟨argument, chosen, written⟩ := shown.shows
      obtain ⟨single, alone⟩ := not_isToken_of_argument chosen
      have opens := angle isLess rfl List.mem_cons_self
      cases rest with
      | never _ rest =>
        cases rest with
        | token greater isGreater rest =>
          cases rest
          have closes := angle isGreater rfl (by simp)
          obtain ⟨_, found, ran⟩ := reduces
          cases found
          have items : ([Node.ofToken less, operand, .ofToken greater].filter
              (!·.isToken)).flatMap Node.items = [operand] := by
            simp [opens, closes, single, alone]
          have one : [operand].mapM typeArgument? = some [argument] := by
            simp [List.mapM_cons, chosen]
          rw [run_typeArgumentList items one] at ran
          cases ran
          exact ⟨less, greater, inner, _, isLess, isGreater, rfl, rfl, .single written⟩
      | times _ element occurrences _ each rest =>
        cases rest with
        | token greater isGreater rest =>
          cases rest
          have closes := angle isGreater rfl (by simp)
          obtain ⟨rows, shows, same, listed⟩ := separated .typeArgument rfl
            (fun _ _ ⟨_, chosen, _⟩ => (not_isToken_of_argument chosen).1) occurrences
            (fun token member => fit token (by simp [member])) each
          obtain ⟨others, further, whole⟩ := written_of_arguments rows written shows
          obtain ⟨_, found, ran⟩ := reduces
          cases found
          have list (nodes : List Node) : (Node.list element nodes).isToken = false ∧
            (Node.list element nodes).items = nodes := ⟨rfl, rfl⟩
          rw [listed, run_typeArgumentList (by
            simp [opens, closes, single, alone, list] : _ = operand :: rows.map (·.2.2))
            (by rw [List.mapM_cons, chosen, further]; rfl)] at ran
          cases ran
          exact ⟨less, greater, _, _, isLess, isGreater, by simp [same], rfl, whole⟩

theorem shown_of_argument (part : TypeName)
    (made : Made ShownType [.rule part.name] tokens parts nodes)
    (among : part = .referenceType ∨ part = .wildcard)
    (reduces : Reduces "TypeArgument" parts nodes node) :
    TypeName.typeArgument.Shows tokens node := by
  have shows := shows_of_single part made reduces
  rcases among with rfl | rfl
  · obtain ⟨written, reference⟩ := shows
    cases written with
    | type written brackets count pairs =>
      exact ⟨_, rfl, .exact (written.type brackets count pairs) reference⟩
  · exact shows

theorem shown_of_question (fit : ∀ token ∈ tokens, Fitting token)
    (made : Made ShownType [.token .question] tokens parts nodes)
    (reduces : Reduces "Wildcard" parts nodes node) : TypeName.wildcard.Shows tokens node := by
  cases made with
  | token question isQuestion made =>
    cases made
    obtain ⟨_, found, ran⟩ := reduces
    cases found
    unfold wildcard at ran
    rw [run_bind (run_expect (fit question (by simp)) isQuestion rfl)] at ran
    cases ran
    exact ⟨_, rfl, .any question isQuestion⟩

theorem shown_of_bound {word : Kind} {make : Tree .type → Tree .typeArgument}
    (isBound : Bounds word make) (fit : ∀ token ∈ tokens, Fitting token)
    (made : Made ShownType [.token .question, .token word, .rule TypeName.referenceType.name]
      tokens parts nodes)
    (reduces : Reduces "Wildcard" parts nodes node) : TypeName.wildcard.Shows tokens node := by
  cases made with
  | token question isQuestion made =>
    cases made with
    | token own isWord made =>
      cases made with
      | rule shown made =>
        cases made
        obtain ⟨written, reference⟩ := shown.shows
        obtain ⟨_, found, ran⟩ := reduces
        cases found
        unfold wildcard at ran
        rw [run_bind (run_expect (fit question (by simp)) isQuestion rfl)] at ran
        have plain : NodeSort.ofKind word = .token word := by cases isBound <;> rfl
        rw [ofToken_of_fitting (fit own (by simp)) (by rw [isWord, plain])] at ran
        cases written with
        | type written brackets count pairs =>
          have argument := Written.bounded question own isQuestion (isWord ▸ isBound)
            (written.type brackets count pairs) reference
          cases isBound with
          | upper =>
            have eaten : tokenOf? .extendsWord (.token own) = some own := by
              simp [tokenOf?, token?, isWord]
            rw [eat?, run_bind (run_take_some eaten)] at ran
            cases ran
            exact ⟨_, rfl, by simpa using argument⟩
          | lower =>
            have other (nodes : List Node) :
                (Node.token own :: nodes).head?.bind (tokenOf? .extendsWord) = none := by
              simp [tokenOf?, token?, isWord]
            have eaten : tokenOf? .superWord (.token own) = some own := by
              simp [tokenOf?, token?, isWord]
            rw [eat?, run_bind (run_take_none (other _)), eat?, if_neg (by simp),
              run_bind (run_take_some eaten)] at ran
            cases ran
            exact ⟨_, rfl, by simpa using argument⟩

theorem shown_of_word {word : Kind} (known : word ∈ primitiveWords)
    (fit : ∀ token ∈ tokens, Fitting token)
    (made : Made ShownType [.token word] tokens parts nodes)
    (reduces : Reduces "PrimitiveType" parts nodes node) :
    TypeName.primitiveType.Shows tokens node := by
  have plain : ∀ word ∈ primitiveWords, NodeSort.ofKind word = .token word := by decide
  cases made with
  | token own isWord made =>
    cases made
    obtain ⟨_, found, ran⟩ := reduces
    cases found
    rw [ofToken_of_fitting (fit own (by simp)) (by rw [isWord, plain word known])] at ran
    cases ran
    exact ⟨own, isWord ▸ known, rfl, rfl⟩

/-- Each alternative shows what it is made of. -/
theorem shownType_of_made : ∀ alternative ∈ typeAlternatives, ∀ (tokens : List Token)
    (parts : Production) (nodes : List Node) (node : Node), (∀ token ∈ tokens, Fitting token) →
      Made ShownType alternative.elements tokens parts nodes →
        Reduces alternative.name parts nodes node → ShownType alternative.name tokens node := by
  intro alternative member tokens parts nodes node fit made reduces
  simp only [typeAlternatives, Grammar.define, List.append_assoc] at member
  rcases List.mem_append.mp member with primitive | member
  · obtain ⟨word, known, rfl⟩ := List.mem_map.mp primitive
    exact .of .primitiveType (shown_of_word known fit made reduces)
  · simp only [List.map_cons, List.map_nil, List.cons_append,
      List.nil_append, List.mem_cons, List.not_mem_nil, or_false] at member
    rcases member with rfl | rfl | rfl | rfl | rfl | rfl | rfl | rfl | rfl | rfl | rfl | rfl | rfl |
      rfl | rfl | rfl | rfl
    · exact .of .type (shown_of_type .primitiveType made (by simp) reduces)
    · exact .of .type (shown_of_type .classType made (by simp) reduces)
    · exact .of .type (shown_of_type .arrayType made (by simp) reduces)
    · exact .of .referenceType (shown_of_reference .classType made (by simp) reduces)
    · exact .of .referenceType (shown_of_reference .arrayType made (by simp) reduces)
    · exact .of .classType (shown_of_classType fit made reduces)
    · exact .of .simpleClassType (shown_of_name made reduces)
    · exact .of .arrayType (shown_of_array .primitiveType made (by simp) reduces)
    · exact .of .arrayType (shown_of_array .classType made (by simp) reduces)
    · exact .of .dims (shown_of_pair fit made reduces)
    · exact .of .dims (shown_of_pairs fit made reduces)
    · exact .of .typeArguments (shown_of_arguments fit made reduces)
    · exact .of .typeArgument (shown_of_argument .referenceType made (by simp) reduces)
    · exact .of .typeArgument (shown_of_argument .wildcard made (by simp) reduces)
    · exact .of .wildcard (shown_of_question fit made reduces)
    · exact .of .wildcard (shown_of_bound .upper fit made reduces)
    · exact .of .wildcard (shown_of_bound .lower fit made reduces)

variable {expansion : Expansion} {grammar : JavaFrontend.Grammar} {parser : Parser Node}
  {finish : Token}

/-- What is built for a type of the tokens that are written for one is that type. -/
theorem Written.of_builds (parses : Parses (.rule "Type") expansion grammar parser)
    (written : Written .type tokens node) (fit : ∀ token ∈ tokens, Fitting token) {root : Node}
    (built : parser.Builds [.rule grammar.start] (tokens ++ [finish]) [root]) : root = node := by
  have shown : ShownType TypeName.type.name tokens root :=
    parses.holds_of_sieve sieve_type shownType_of_made (by decide) (by decide)
      (fun token member => ⟨written.kinds token member, fit token member⟩)
      (parses.fragment_of_builds (by decide) built)
  have ends : Ends .type [] := by simp [Ends]
  exact (shown.shows.unique written ends ends rfl).2.2

end JavaFrontend.Java
