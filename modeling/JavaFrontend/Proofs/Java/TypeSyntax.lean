import JavaFrontend.Proofs.Grammar.Meaning
import JavaFrontend.Proofs.Java.Goals

/-!
Types without annotations as rows of tokens. `Written` says which tokens are which type; they show
it (`Written.unique`), and the grammar of types derives their kinds (`Written.generates`).
-/

namespace JavaFrontend.Java

open OperandM JavaFrontend.Java.Reduction

/-! ### What is written -/

/-- The words for primitive types. -/
def primitiveWords : List Kind := [
  .byteWord, .shortWord, .charWord, .intWord, .longWord, .floatWord, .doubleWord, .booleanWord]

/-- The kinds of a number of pairs of brackets. -/
def pairsOf (count : Nat) : List Kind :=
  (List.replicate count [Kind.leftBracket, Kind.rightBracket]).flatten

/-- The kinds are not those of a primitive type by itself. -/
def IsReference (kinds : List Kind) : Prop := ∀ word ∈ primitiveWords, kinds ≠ [word]

/-- What types are made of. -/
inductive TypeSort where
  | type
  /-- What arrays are made of: a primitive type or a class type. -/
  | element
  | classType
  | segment
  /-- What stands between `<` and `>`. -/
  | arguments
  | argument

/-- What a wildcard is made into whose bound stands behind the word. -/
inductive Bounds : Kind → (Tree .type → Tree .typeArgument) → Prop where
  | upper : Bounds .extendsWord .upperBounded
  | lower : Bounds .superWord .lowerBounded

theorem Bounds.unique {kind : Kind} {make make' : Tree .type → Tree .typeArgument}
    (bounds : Bounds kind make) (bounds' : Bounds kind make') : make = make' := by
  cases bounds <;> cases bounds' <;> rfl

/-- The tokens are a part of a type, of which the node is made. The pairs of brackets are counted in
32 bits. -/
inductive Written : TypeSort → List Token → Node → Prop where
  | type {tokens : List Token} {element : Tree .type}
      (written : Written .element tokens (.type element)) (brackets : List Token) (count : Nat)
      (pairs : brackets.map (·.kind) = pairsOf count) :
    Written .type (tokens ++ brackets) (.type (element.withDims (count % UInt32.size)))
  | primitive (word : Token) (known : word.kind ∈ primitiveWords) :
    Written .element [word] (.type (.primitiveType .nil word.kind word.position))
  | ofClass {tokens : List Token} {node : Node} (written : Written .classType tokens node) :
    Written .element tokens node
  | last {tokens : List Token} {node : Node} (written : Written .segment tokens node) :
    Written .classType tokens node
  | dotted {tokens rest : List Token} {first others : Row .segment}
      (written : Written .segment tokens (.type (.classType first)))
      (dot : Token) (isDot : dot.kind = .dot)
      (more : Written .classType rest (.type (.classType others))) :
    Written .classType (tokens ++ dot :: rest) (.type (.classType (first.toList ++ others.toList)))
  | bare (name : Token) (isName : name.kind = .identifier) :
    Written .segment [name] (.type (.classType [Tree.segment .nil ⟨name.text, name.position⟩ .nil]))
  | angled (name less : Token) {tokens : List Token} {arguments : List (Tree .typeArgument)}
      (isName : name.kind = .identifier) (isLess : less.kind = .less)
      (written : Written .arguments tokens (.typeArguments arguments))
      (greater : Token) (isGreater : greater.kind = .greater) :
    Written .segment (name :: less :: (tokens ++ [greater]))
      (.type (.classType [Tree.segment .nil ⟨name.text, name.position⟩ arguments]))
  | single {tokens : List Token} {argument : Tree .typeArgument}
      (written : Written .argument tokens (.typeArgument argument)) :
    Written .arguments tokens (.typeArguments [argument])
  | several {tokens rest : List Token} {argument : Tree .typeArgument}
      {others : List (Tree .typeArgument)}
      (written : Written .argument tokens (.typeArgument argument))
      (comma : Token) (isComma : comma.kind = .comma)
      (more : Written .arguments rest (.typeArguments others)) :
    Written .arguments (tokens ++ comma :: rest) (.typeArguments (argument :: others))
  | exact {tokens : List Token} {type : Tree .type} (written : Written .type tokens (.type type))
      (reference : IsReference (tokens.map (·.kind))) :
    Written .argument tokens (.typeArgument (.exactArgument type))
  | any (question : Token) (isQuestion : question.kind = .question) :
    Written .argument [question] (.typeArgument .anyArgument)
  | bounded (question word : Token) {tokens : List Token} {bound : Tree .type}
      {make : Tree .type → Tree .typeArgument} (isQuestion : question.kind = .question)
      (isBound : Bounds word.kind make) (written : Written .type tokens (.type bound))
      (reference : IsReference (tokens.map (·.kind))) :
    Written .argument (question :: word :: tokens) (.typeArgument (make bound))

/-- The kinds of the tokens of types. -/
def typeKinds : List Kind := primitiveWords ++ [
  .identifier, .dot, .less, .greater, .question, .comma, .extendsWord, .superWord, .leftBracket,
  .rightBracket]

variable {sort : TypeSort} {tokens tokens' more more' : List Token} {node node' : Node}

theorem mem_pairsOf {kind : Kind} {count : Nat} (member : kind ∈ pairsOf count) :
    kind = .leftBracket ∨ kind = .rightBracket := by
  obtain ⟨pair, among, inside⟩ := List.mem_flatten.mp member
  obtain ⟨-, rfl⟩ := List.mem_replicate.mp among
  simpa using inside

theorem Bounds.known {kind : Kind} {make : Tree .type → Tree .typeArgument}
    (bounds : Bounds kind make) : kind ∈ typeKinds := by
  cases bounds <;> decide

theorem Written.kinds (written : Written sort tokens node) :
    ∀ token ∈ tokens, token.kind ∈ typeKinds := by
  have primitive {word : Kind} (known : word ∈ primitiveWords) : word ∈ typeKinds :=
    List.mem_append_left _ known
  have other {kind : Kind} (known : kind ∈ typeKinds) {token : Token} (same : token.kind = kind) :
      token.kind ∈ typeKinds := same ▸ known
  induction written with
  | type _ brackets count pairs ih =>
    refine List.forall_mem_append.mpr ⟨ih, fun token member => ?_⟩
    have among : token.kind ∈ pairsOf count := pairs ▸ List.mem_map_of_mem member
    rcases mem_pairsOf among with same | same
    · exact other (by decide) same
    · exact other (by decide) same
  | primitive word known => simpa using primitive known
  | ofClass _ ih | last _ ih | single _ ih | exact _ _ ih => exact ih
  | dotted _ dot isDot _ ih moreIh =>
    exact List.forall_mem_append.mpr
      ⟨ih, List.forall_mem_cons.mpr ⟨other (by decide) isDot, moreIh⟩⟩
  | bare name isName => simpa using other (by decide) isName
  | angled name less isName isLess _ greater isGreater ih =>
    simp only [List.forall_mem_cons, List.forall_mem_append]
    exact ⟨other (by decide) isName, other (by decide) isLess, ih, other (by decide) isGreater,
      by simp⟩
  | several _ comma isComma _ ih moreIh =>
    exact List.forall_mem_append.mpr
      ⟨ih, List.forall_mem_cons.mpr ⟨other (by decide) isComma, moreIh⟩⟩
  | any question isQuestion => simpa using other (by decide) isQuestion
  | bounded _ _ isQuestion isBound _ _ ih =>
    simp only [List.forall_mem_cons]
    exact ⟨other (by decide) isQuestion, isBound.known, ih⟩

/-! ### The tokens show the type -/

/-- The kinds with which a part of the sort goes on. -/
def TypeSort.goesOn : TypeSort → List Kind
  | .type => [.leftBracket, .dot, .less]
  | .element | .classType => [.dot, .less]
  | .segment => [.less]
  | .argument => [.leftBracket, .dot, .less, .extendsWord, .superWord]
  | .arguments => [.leftBracket, .dot, .less, .extendsWord, .superWord, .comma]

/-- A part of the sort ends in front of the tokens. -/
def Ends (sort : TypeSort) (more : List Token) : Prop :=
  ∀ token ∈ more.head?, token.kind ∉ sort.goesOn

theorem Bounds.goesOn {kind : Kind} {make : Tree .type → Tree .typeArgument}
    (bounds : Bounds kind make) : kind ∈ TypeSort.argument.goesOn := by
  cases bounds <;> decide

theorem Ends.cons {token : Token} {kind : Kind} (same : token.kind = kind)
    (closes : kind ∉ sort.goesOn) : Ends sort (token :: more) := by
  simpa [Ends, same] using closes

theorem Ends.mono {part : TypeSort} (ends : Ends sort more) (within : part.goesOn ⊆ sort.goesOn) :
    Ends part more :=
  fun token member inside => ends token member (within inside)

theorem Ends.false {token : Token} {kind : Kind} (ends : Ends sort (token :: more))
    (same : token.kind = kind) (further : kind ∈ sort.goesOn) : False :=
  ends token rfl (same ▸ further)

/-- Brackets end a class type. -/
theorem Ends.of_pairs {brackets : List Token} {count : Nat} (ends : Ends .type more)
    (pairs : brackets.map (·.kind) = pairsOf count) : Ends .element (brackets ++ more) := by
  cases brackets with
  | nil => exact ends.mono (by decide)
  | cons bracket brackets =>
    have among : bracket.kind ∈ pairsOf count := by simp [← pairs]
    rcases mem_pairsOf among with same | same
    · exact .cons same (by decide)
    · exact .cons same (by decide)

/-- There are as many pairs of brackets as stand there. -/
theorem pairs_unique {brackets brackets' : List Token} {count count' : Nat}
    (pairs : brackets.map (·.kind) = pairsOf count)
    (pairs' : brackets'.map (·.kind) = pairsOf count') (ends : Ends .type more)
    (ends' : Ends .type more') (same : brackets ++ more = brackets' ++ more') :
    brackets = brackets' ∧ more = more' ∧ count = count' := by
  have split {brackets : List Token} {count : Nat}
      (pairs : brackets.map (·.kind) = pairsOf (count + 1)) : ∃ left right rest,
      brackets = left :: right :: rest ∧ left.kind = .leftBracket ∧
        rest.map (·.kind) = pairsOf count := by
    rw [pairsOf, List.replicate_succ, List.flatten_cons] at pairs
    obtain ⟨left, rest, rfl, isLeft, pairs⟩ := List.map_eq_cons_iff.mp pairs
    obtain ⟨right, rest, rfl, -, pairs⟩ := List.map_eq_cons_iff.mp pairs
    exact ⟨left, right, rest, rfl, isLeft, pairs⟩
  induction count generalizing brackets brackets' count' with
  | zero =>
    obtain rfl := List.map_eq_nil_iff.mp pairs
    cases count' with
    | zero =>
      obtain rfl := List.map_eq_nil_iff.mp pairs'
      exact ⟨rfl, same, rfl⟩
    | succ count' =>
      obtain ⟨left, right, rest, rfl, isLeft, -⟩ := split pairs'
      cases same
      exact (ends.false isLeft (by decide)).elim
  | succ count ih =>
    obtain ⟨left, right, rest, rfl, isLeft, others⟩ := split pairs
    cases count' with
    | zero =>
      obtain rfl := List.map_eq_nil_iff.mp pairs'
      cases same
      exact (ends'.false isLeft (by decide)).elim
    | succ count' =>
      obtain ⟨left', right', rest', rfl, -, others'⟩ := split pairs'
      simp only [List.cons_append, List.cons.injEq] at same
      obtain ⟨rfl, rfl, same⟩ := same
      obtain ⟨rfl, rfl, rfl⟩ := ih others others' same
      exact ⟨rfl, rfl, rfl⟩

/-- The kinds with which a part of the sort begins. -/
def TypeSort.begins : TypeSort → List Kind
  | .type | .element => .identifier :: primitiveWords
  | .classType | .segment => [.identifier]
  | .arguments | .argument => .question :: .identifier :: primitiveWords

theorem Written.begins (written : Written sort tokens node) :
    ∃ first rest, tokens = first :: rest ∧ first.kind ∈ sort.begins := by
  induction written with
  | type _ brackets _ _ ih =>
    obtain ⟨first, rest, rfl, known⟩ := ih
    exact ⟨first, rest ++ brackets, rfl, known⟩
  | primitive word known => exact ⟨word, [], rfl, List.mem_cons_of_mem _ known⟩
  | ofClass _ ih =>
    obtain ⟨first, rest, rfl, known⟩ := ih
    exact ⟨first, rest, rfl, by simp_all [TypeSort.begins]⟩
  | last _ ih | single _ ih => exact ih
  | dotted _ dot _ _ ih | several _ dot _ _ ih =>
    obtain ⟨first, rest, rfl, known⟩ := ih
    exact ⟨first, _, rfl, known⟩
  | bare name isName => exact ⟨name, [], rfl, by simp [TypeSort.begins, isName]⟩
  | angled name _ isName => exact ⟨name, _, rfl, by simp [TypeSort.begins, isName]⟩
  | exact _ _ ih =>
    obtain ⟨first, rest, rfl, known⟩ := ih
    exact ⟨first, rest, rfl, List.mem_cons_of_mem _ known⟩
  | any question isQuestion => exact ⟨question, [], rfl, by simp [TypeSort.begins, isQuestion]⟩
  | bounded question _ isQuestion =>
    exact ⟨question, _, rfl, by simp [TypeSort.begins, isQuestion]⟩

/-- What begins with another kind is no part of the sort. -/
theorem Written.false_of_head {first : Token} {kind : Kind} (written : Written sort tokens node)
    (same : tokens ++ more = first :: more') (isKind : first.kind = kind)
    (other : kind ∉ sort.begins) : False := by
  obtain ⟨head, rest, rfl, known⟩ := written.begins
  cases same
  exact other (isKind ▸ known)

/-- The tokens are told apart from all others that are a part of the sort: what has them in front
and no further token of the part behind them is read as the node, and ends with them. -/
def Shows (sort : TypeSort) (tokens : List Token) (node : Node) : Prop :=
  ∀ ⦃tokens' more more' node'⦄, Written sort tokens' node' → Ends sort more → Ends sort more' →
    tokens ++ more = tokens' ++ more' → tokens = tokens' ∧ more = more' ∧ node = node'

theorem Shows.type {element : Tree .type} (shows : Shows .element tokens (.type element))
    {brackets : List Token} {count : Nat} (pairs : brackets.map (·.kind) = pairsOf count) :
    Shows .type (tokens ++ brackets) (.type (element.withDims (count % UInt32.size))) := by
  rintro _ more more' _ (⟨written', brackets', count', pairs'⟩) ends ends' same
  rw [List.append_assoc, List.append_assoc] at same
  obtain ⟨rfl, behind, ⟨rfl⟩⟩ := shows written' (ends.of_pairs pairs) (ends'.of_pairs pairs') same
  obtain ⟨rfl, rfl, rfl⟩ := pairs_unique pairs pairs' ends ends' behind
  exact ⟨rfl, rfl, rfl⟩

/-- A primitive type is no class type. -/
theorem Written.false_of_primitive {word : Token} (written : Written .classType tokens node)
    (known : word.kind ∈ primitiveWords) (same : tokens ++ more = word :: more') : False :=
  written.false_of_head same rfl fun begins => by
    rw [List.mem_singleton.mp begins] at known
    exact absurd known (by decide)

theorem shows_primitive {word : Token} (known : word.kind ∈ primitiveWords) :
    Shows .element [word] (.type (.primitiveType .nil word.kind word.position)) := by
  intro tokens' more more' node' written' ends ends' same
  cases written' with
  | primitive word' =>
    cases same
    exact ⟨rfl, rfl, rfl⟩
  | ofClass written' => exact (written'.false_of_primitive known same.symm).elim

theorem Shows.ofClass (shows : Shows .classType tokens node) (written : Written .classType tokens node) :
    Shows .element tokens node := by
  intro tokens' more more' node' written' ends ends' same
  cases written' with
  | primitive word known => exact (written.false_of_primitive known same).elim
  | ofClass written' => exact shows written' ends ends' same

theorem Shows.last (shows : Shows .segment tokens node) : Shows .classType tokens node := by
  intro tokens' more more' node' written' ends ends' same
  cases written' with
  | last written' => exact shows written' (ends.mono (by decide)) (ends'.mono (by decide)) same
  | dotted written' dot isDot =>
    rw [List.append_assoc] at same
    obtain ⟨-, rfl, -⟩ := shows written' (ends.mono (by decide)) (.cons isDot (by decide)) same
    exact (ends.false isDot (by decide)).elim

theorem Shows.dotted {rest : List Token} {first others : Row .segment}
    (shows : Shows .segment tokens (.type (.classType first))) {dot : Token}
    (isDot : dot.kind = .dot) (further : Shows .classType rest (.type (.classType others))) :
    Shows .classType (tokens ++ dot :: rest)
      (.type (.classType (first.toList ++ others.toList))) := by
  intro tokens' more more' node' written' ends ends' same
  cases written' with
  | last written' =>
    rw [List.append_assoc] at same
    obtain ⟨-, rfl, -⟩ := shows written' (.cons isDot (by decide)) (ends'.mono (by decide)) same
    exact (ends'.false isDot (by decide)).elim
  | dotted written' dot' isDot' others' =>
    simp only [List.append_assoc, List.cons_append] at same
    obtain ⟨rfl, behind, ⟨rfl⟩⟩ :=
      shows written' (.cons isDot (by decide)) (.cons isDot' (by decide)) same
    obtain ⟨rfl, following⟩ := List.cons.inj behind
    obtain ⟨rfl, rfl, ⟨rfl⟩⟩ := further others' ends ends' following
    exact ⟨rfl, rfl, rfl⟩

theorem shows_bare (name : Token) : Shows .segment [name]
    (.type (.classType [Tree.segment .nil ⟨name.text, name.position⟩ .nil])) := by
  intro tokens' more more' node' written' ends ends' same
  cases written' with
  | bare name' =>
    cases same
    exact ⟨rfl, rfl, rfl⟩
  | angled name' less _ isLess =>
    cases same
    exact (ends.false isLess (by decide)).elim

theorem Shows.angled (name : Token) {less greater : Token}
    {arguments : List (Tree .typeArgument)} (isLess : less.kind = .less)
    (shows : Shows .arguments tokens (.typeArguments arguments))
    (isGreater : greater.kind = .greater) : Shows .segment (name :: less :: (tokens ++ [greater]))
      (.type (.classType [Tree.segment .nil ⟨name.text, name.position⟩ arguments])) := by
  intro tokens' more more' node' written' ends ends' same
  cases written' with
  | bare name' =>
    cases same
    exact (ends'.false isLess (by decide)).elim
  | angled name' less' _ _ written' greater' isGreater' =>
    simp only [List.cons_append, List.append_assoc, List.cons.injEq] at same
    obtain ⟨rfl, rfl, same⟩ := same
    obtain ⟨rfl, behind, ⟨rfl⟩⟩ :=
      shows written' (.cons isGreater (by decide)) (.cons isGreater' (by decide)) same
    obtain ⟨rfl, rfl⟩ := List.cons.inj behind
    exact ⟨rfl, rfl, rfl⟩

theorem Shows.single {argument : Tree .typeArgument}
    (shows : Shows .argument tokens (.typeArgument argument)) :
    Shows .arguments tokens (.typeArguments [argument]) := by
  intro tokens' more more' node' written' ends ends' same
  cases written' with
  | single written' =>
    obtain ⟨rfl, rfl, ⟨rfl⟩⟩ :=
      shows written' (ends.mono (by decide)) (ends'.mono (by decide)) same
    exact ⟨rfl, rfl, rfl⟩
  | several written' comma isComma =>
    rw [List.append_assoc] at same
    obtain ⟨-, rfl, -⟩ := shows written' (ends.mono (by decide)) (.cons isComma (by decide)) same
    exact (ends.false isComma (by decide)).elim

theorem Shows.several {rest : List Token} {argument : Tree .typeArgument}
    {others : List (Tree .typeArgument)} (shows : Shows .argument tokens (.typeArgument argument))
    {comma : Token} (isComma : comma.kind = .comma)
    (further : Shows .arguments rest (.typeArguments others)) :
    Shows .arguments (tokens ++ comma :: rest) (.typeArguments (argument :: others)) := by
  intro tokens' more more' node' written' ends ends' same
  cases written' with
  | single written' =>
    rw [List.append_assoc] at same
    obtain ⟨-, rfl, -⟩ := shows written' (.cons isComma (by decide)) (ends'.mono (by decide)) same
    exact (ends'.false isComma (by decide)).elim
  | several written' comma' isComma' others' =>
    simp only [List.append_assoc, List.cons_append] at same
    obtain ⟨rfl, behind, ⟨rfl⟩⟩ :=
      shows written' (.cons isComma (by decide)) (.cons isComma' (by decide)) same
    obtain ⟨rfl, following⟩ := List.cons.inj behind
    obtain ⟨rfl, rfl, ⟨rfl⟩⟩ := further others' ends ends' following
    exact ⟨rfl, rfl, rfl⟩

theorem Shows.exact {type : Tree .type} (shows : Shows .type tokens (.type type))
    (written : Written .type tokens (.type type)) :
    Shows .argument tokens (.typeArgument (.exactArgument type)) := by
  intro tokens' more more' node' written' ends ends' same
  cases written' with
  | exact written' =>
    obtain ⟨rfl, rfl, ⟨rfl⟩⟩ :=
      shows written' (ends.mono (by decide)) (ends'.mono (by decide)) same
    exact ⟨rfl, rfl, rfl⟩
  | any _ isQuestion => exact (written.false_of_head same isQuestion (by decide)).elim
  | bounded _ _ isQuestion => exact (written.false_of_head same isQuestion (by decide)).elim

theorem shows_any {question : Token} (isQuestion : question.kind = .question) :
    Shows .argument [question] (.typeArgument .anyArgument) := by
  intro tokens' more more' node' written' ends ends' same
  cases written' with
  | exact written' => exact (written'.false_of_head same.symm isQuestion (by decide)).elim
  | any question' =>
    cases same
    exact ⟨rfl, rfl, rfl⟩
  | bounded _ word _ isBound =>
    cases same
    exact (ends word rfl isBound.goesOn).elim

theorem Shows.bounded {question word : Token} {bound : Tree .type}
    {make : Tree .type → Tree .typeArgument} (shows : Shows .type tokens (.type bound))
    (isQuestion : question.kind = .question) (isBound : Bounds word.kind make) :
    Shows .argument (question :: word :: tokens) (.typeArgument (make bound)) := by
  intro tokens' more more' node' written' ends ends' same
  cases written' with
  | exact written' => exact (written'.false_of_head same.symm isQuestion (by decide)).elim
  | any question' =>
    cases same
    exact (ends' word rfl isBound.goesOn).elim
  | bounded question' word' _ isBound' written' =>
    simp only [List.cons_append, List.cons.injEq] at same
    obtain ⟨rfl, rfl, same⟩ := same
    obtain ⟨rfl, rfl, ⟨rfl⟩⟩ :=
      shows written' (ends.mono (by decide)) (ends'.mono (by decide)) same
    obtain rfl := isBound.unique isBound'
    exact ⟨rfl, rfl, rfl⟩

/-- A part ends where it must, and its tokens show what it is made into. -/
theorem Written.unique (written : Written sort tokens node) : Shows sort tokens node := by
  induction written with
  | type _ _ _ pairs ih => exact ih.type pairs
  | primitive _ known => exact shows_primitive known
  | ofClass written ih => exact ih.ofClass written
  | last _ ih => exact ih.last
  | dotted _ _ isDot _ ih moreIh => exact ih.dotted isDot moreIh
  | bare name => exact shows_bare name
  | angled name _ _ isLess _ _ isGreater ih => exact ih.angled name isLess isGreater
  | single _ ih => exact ih.single
  | several _ _ isComma _ ih moreIh => exact ih.several isComma moreIh
  | exact written _ ih => exact ih.exact written
  | any _ isQuestion => exact shows_any isQuestion
  | bounded _ _ isQuestion isBound _ _ ih => exact ih.bounded isQuestion isBound

/-! ### What the grammar derives -/

/-- The alternatives that a grammar of types is made of. -/
def typeGoalAlternatives : List Alternative := (Grammar.withGoal (.rule "Type")).alternatives

/-- The kinds are derived for the sort. -/
def TypeSort.Derived : TypeSort → List Kind → Prop
  | .type => fun kinds => Means typeGoalAlternatives [.rule "Type"] kinds ∧
      (IsReference kinds → Means typeGoalAlternatives [.rule "ReferenceType"] kinds)
  | .element => fun kinds => Means typeGoalAlternatives [.rule "ClassType"] kinds ∨
      ∃ word ∈ primitiveWords, kinds = [word]
  | .classType => fun kinds => ∃ first others, kinds = first ++ others ∧
      Means typeGoalAlternatives [.rule "SimpleClassType"] first ∧
      Occurs typeGoalAlternatives [.token .dot, .rule "SimpleClassType"] others
  | .segment => Means typeGoalAlternatives [.rule "SimpleClassType"]
  | .arguments => fun kinds => ∃ first others, kinds = first ++ others ∧
      Means typeGoalAlternatives [.rule "TypeArgument"] first ∧
      Occurs typeGoalAlternatives [.token .comma, .rule "TypeArgument"] others
  | .argument => Means typeGoalAlternatives [.rule "TypeArgument"]

variable {kinds : List Kind}

theorem means_primitive {word : Kind} (known : word ∈ primitiveWords) :
    Means typeGoalAlternatives [.rule "PrimitiveType"] [word] := by
  have member : ∀ word ∈ primitiveWords,
      (⟨"PrimitiveType", [.token word]⟩ : Alternative) ∈ typeGoalAlternatives := by
    decide
  exact means_name (member word known) (.token word .nil)

theorem means_dims {alternatives : List Alternative} (all : Grammar.rules ⊆ alternatives)
    (count : Nat) : Means alternatives [.rule "Dims"] (pairsOf (count + 1)) := by
  have pair : Means alternatives [.token .leftBracket, .token .rightBracket]
      [.leftBracket, .rightBracket] := .token _ (.token _ .nil)
  induction count with
  | zero => exact means_name (all (by decide)) pair
  | succ count ih =>
    rw [pairsOf, List.replicate_succ', List.flatten_append]
    exact means_name (all (by decide) : ⟨"Dims", [.rule "Dims", .token .leftBracket,
      .token .rightBracket]⟩ ∈ alternatives) (ih.append pair)

/-- An array type is a type and a reference type. -/
theorem derived_array (array : Means typeGoalAlternatives [.rule "ArrayType"] kinds) :
    TypeSort.type.Derived kinds :=
  ⟨means_name (by decide) array, fun _ => means_name (by decide +kernel) array⟩

theorem derived_type {count : Nat} (derived : TypeSort.element.Derived kinds) :
    TypeSort.type.Derived (kinds ++ pairsOf count) := by
  cases count with
  | zero =>
    rw [pairsOf, List.replicate_zero, List.flatten_nil, List.append_nil]
    rcases derived with named | ⟨word, known, rfl⟩
    · exact ⟨means_name (by decide) named, fun _ => means_name (by decide +kernel) named⟩
    · exact ⟨means_name (by decide) (means_primitive known),
        fun reference => absurd rfl (reference word known)⟩
  | succ count =>
    have dims : Means typeGoalAlternatives [.rule "Dims"] _ :=
      means_dims (List.subset_cons_self _ _) count
    rcases derived with named | ⟨word, known, rfl⟩
    · exact derived_array (means_name (by decide : ⟨"ArrayType", [.rule "ClassType",
        .rule "Dims"]⟩ ∈ typeGoalAlternatives) (named.append dims))
    · exact derived_array (means_name (by decide : ⟨"ArrayType", [.rule "PrimitiveType",
        .rule "Dims"]⟩ ∈ typeGoalAlternatives) ((means_primitive known).append dims))

/-- The grammar derives the kinds of what is written. -/
theorem Written.derived (written : Written sort tokens node) :
    sort.Derived (tokens.map (·.kind)) := by
  induction written with
  | type _ brackets count pairs ih =>
    rw [List.map_append, pairs]
    exact derived_type ih
  | primitive word known => exact .inr ⟨word.kind, known, rfl⟩
  | ofClass _ ih =>
    obtain ⟨first, others, same, segment, more⟩ := ih
    rw [same]
    refine .inl (means_name (by decide : ⟨"ClassType", [.rule "SimpleClassType",
      .repeated [.token .dot, .rule "SimpleClassType"]]⟩ ∈ typeGoalAlternatives) ?_)
    rw [← List.append_nil others]
    exact segment.append (more.repeated .nil)
  | last _ ih | single _ ih => exact ⟨_, [], (List.append_nil _).symm, ih, .nil⟩
  | dotted _ dot isDot _ ih moreIh =>
    obtain ⟨first, others, same, segment, more⟩ := moreIh
    refine ⟨_, _, List.map_append, ih, ?_⟩
    rw [List.map_cons, isDot, same]
    exact more.cons (.token .dot segment)
  | bare name isName =>
    rw [List.map_singleton, isName]
    have none : Occurs typeGoalAlternatives [.rule "Annotation"] [] := .nil
    exact means_name (by decide)
      (none.repeated (.token .identifier (.absent [.rule "TypeArguments"] .nil)))
  | angled name less isName isLess _ greater isGreater ih =>
    obtain ⟨first, others, same, argument, more⟩ := ih
    have none : Occurs typeGoalAlternatives [.rule "Annotation"] [] := .nil
    have arguments : Means typeGoalAlternatives [.rule "TypeArguments"]
        (.less :: (first ++ (others ++ [Kind.greater]))) :=
      means_name (by decide : ⟨"TypeArguments", [.token .less, .rule "TypeArgument",
        .repeated [.token .comma, .rule "TypeArgument"], .token .greater]⟩ ∈ typeGoalAlternatives)
        (.token .less (argument.append (more.repeated (.token .greater .nil))))
    have segment : Means typeGoalAlternatives [.rule "SimpleClassType"]
        (.identifier :: (.less :: (first ++ (others ++ [Kind.greater])) ++ [])) :=
      means_name (by decide)
        (none.repeated (.token .identifier (.present arguments .nil)))
    simpa [TypeSort.Derived, isName, isLess, isGreater, same] using segment
  | several _ comma isComma _ ih moreIh =>
    obtain ⟨first, others, same, argument, more⟩ := moreIh
    refine ⟨_, _, List.map_append, ih, ?_⟩
    rw [List.map_cons, isComma, same]
    exact more.cons (.token .comma argument)
  | exact _ reference ih => exact means_name (by decide) (ih.2 reference)
  | any question isQuestion =>
    rw [List.map_singleton, isQuestion]
    have wildcard : Means typeGoalAlternatives [.rule "Wildcard"] [.question] :=
      means_name (by decide) (.token .question .nil)
    exact means_name (by decide) wildcard
  | bounded question word isQuestion isBound _ reference ih =>
    rename_i inner _ _ _
    have bound := ih.2 reference
    have wildcard : Means typeGoalAlternatives [.rule "Wildcard"]
        (.question :: word.kind :: inner.map (·.kind)) := by
      generalize word.kind = kind at isBound ⊢
      cases isBound with
      | upper => exact means_name (by decide) (.token .question (.token .extendsWord bound))
      | lower => exact means_name (by decide) (.token .question (.token .superWord bound))
    rw [List.map_cons, List.map_cons, isQuestion]
    exact means_name (by decide) wildcard

theorem Written.generates {grammar : JavaFrontend.Grammar}
    (built : Grammar.forGoal "Type" = .ok grammar) (written : Written .type tokens node) :
    grammar.Generates [.rule grammar.start] (tokens.map (·.kind) ++ [Kind.endOfInput]) :=
  generates_of_goal (.fragment "Type") built written.derived.1

end JavaFrontend.Java
