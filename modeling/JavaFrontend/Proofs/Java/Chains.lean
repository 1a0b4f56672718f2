import JavaFrontend.Proofs.Java.Ladder
import JavaFrontend.Proofs.Java.TypeText
import JavaFrontend.Proofs.Token.Pieces

/-!
Texts of names with binary operators between them. Whether the parser tells the lexer where type
arguments may close or not, it takes no operator of such a text apart, and makes of the text the
expression that is grouped by level (`parse_of_chain`).
-/

namespace JavaFrontend.Java

/-! ### The text -/

/-- The names and the operators between them. -/
def chainPieces (first : String) (rest : List (Kind × String)) : List (Kind × String) :=
  (.identifier, first) ::
    rest.flatMap fun (operator, name) => [(operator, operator.text), (.identifier, name)]

/-- Names and operators with a blank between each two. -/
def chainText (first : String) (rest : List (Kind × String)) : String :=
  " ".intercalate ((chainPieces first rest).map (·.2))

theorem isPiece_of_isWord {text : String} (isWord : IsWord .identifier text) :
    Lexeme.isPiece .identifier text.toList := by
  obtain ⟨c, more, rfl, start, part, named⟩ := isWord.spelled
  rw [String.toList_ofList]
  exact Lexeme.isPiece_word start part named rfl

variable {first : String} {rest : List (Kind × String)}

/-- A row of names and operators. -/
def IsRow (first : String) (rest : List (Kind × String)) : Prop :=
  IsWord .identifier first ∧
    ∀ step ∈ rest, step.1 ∈ binaryOperators ∧ IsWord .identifier step.2

instance : Decidable (IsRow first rest) := inferInstanceAs (Decidable (_ ∧ _))

theorem isPiece_of_isRow (row : IsRow first rest) :
    ∀ piece ∈ chainPieces first rest, Lexeme.isPiece piece.1 piece.2.toList := by
  have operators : ∀ operator ∈ binaryOperators,
      Lexeme.isPiece operator operator.text.toList := by decide +kernel
  refine List.forall_mem_cons.mpr ⟨isPiece_of_isWord row.1, fun piece member => ?_⟩
  obtain ⟨step, among, inside⟩ := List.mem_flatMap.mp member
  obtain ⟨known, isName⟩ := row.2 step among
  simp only [List.mem_cons, List.not_mem_nil, or_false] at inside
  rcases inside with rfl | rfl
  · exact operators _ known
  · exact isPiece_of_isWord isName

/-- Tokens that are so are names and operators. -/
theorem isChain_of_pieces {tokens : List Token} (row : IsRow first rest)
    (same : tokens.map (fun token => (token.kind, token.text)) = chainPieces first rest) :
    ∃ names : List Identifier, names.map (·.name) = first :: rest.map (·.2) ∧
      IsChain tokens (names.map .ofIdentifier) (rest.map (·.1)) := by
  induction rest generalizing first tokens with
  | nil =>
    obtain ⟨token, others, rfl, isFirst, none⟩ := List.map_eq_cons_iff.mp same
    obtain rfl := List.map_eq_nil_iff.mp none
    obtain ⟨isName, rfl⟩ := Prod.mk.inj isFirst
    exact ⟨[⟨token.text, token.position⟩], rfl, .name isName⟩
  | cons step rest ih =>
    obtain ⟨token, _, rfl, isFirst, more⟩ := List.map_eq_cons_iff.mp same
    obtain ⟨operator, others, rfl, isOperator, more⟩ := List.map_eq_cons_iff.mp more
    obtain ⟨isName, rfl⟩ := Prod.mk.inj isFirst
    obtain ⟨⟨known, isNext⟩, later⟩ := List.forall_mem_cons.mp row.2
    obtain ⟨names, written, chain⟩ := ih ⟨isNext, later⟩ more
    have kind : operator.kind = step.1 := (Prod.mk.inj isOperator).1
    refine ⟨⟨token.text, token.position⟩ :: names, by simp [written], ?_⟩
    rw [List.map_cons, List.map_cons, ← kind]
    exact .cons isName (kind ▸ known) chain

theorem exists_chain (row : IsRow first rest) : ∃ tokens place, ∃ names : List Identifier,
    names.map (·.name) = first :: rest.map (·.2) ∧
    IsChain tokens (names.map .ofIdentifier) (rest.map (·.1)) ∧
    (Lexer.ofString (chainText first rest)).pending = tokens ++ [Token.endOfInput place] := by
  obtain ⟨tokens, place, same, waiting⟩ :=
    Lexer.pending_of_pieces _ (isPiece_of_isRow row) (Lexer.ofString "").position
  obtain ⟨names, written, chain⟩ := isChain_of_pieces row same
  refine ⟨tokens, place, names, written, chain, ?_⟩
  rw [← waiting, Lexer.ofString, chainText, String.toList_intercalate, List.map_map]
  rfl

/-! ### Parsing it -/

section Parsing

variable {grammar : JavaFrontend.Grammar} {tokens : List Token} {names : List QualifiedName}
  {operators : List Kind} {source : String} {place : Position}

theorem generates_chain (built : Grammar.forGoal "Expression" = .ok grammar)
    (known : ∀ operator ∈ operators, operator ∈ binaryOperators) :
    grammar.Generates [.rule grammar.start] (chainKinds operators ++ [Kind.endOfInput]) :=
  generates_of_goal (.fragment "Expression") built
    (means_chain (List.subset_cons_self _ _) known)

/-- Wherever an operator comes in such a text, a shift could come too. -/
theorem viable_shift (built : Grammar.forGoal "Expression" = .ok grammar)
    {front back : List Token} {token : Token}
    (chain : IsChain (front ++ token :: back) names operators)
    (known : token.kind ∈ binaryOperators) :
    grammar.Viable (front.map (·.kind) ++ [Kind.rightShift]) := by
  obtain ⟨_, _, before, _, inFront, -, -, -⟩ := chain.split known
  have shift : .rightShift ∈ binaryOperators := by decide
  have all : ∀ operator ∈ before ++ [Kind.rightShift], operator ∈ binaryOperators :=
    List.forall_mem_append.mpr ⟨inFront.known, List.forall_mem_singleton.mpr shift⟩
  have viable := Grammar.Viable.of_generates (generates_chain built all)
  rw [chainKinds_append, ← inFront.kinds_eq, List.append_assoc, List.cons_append,
    List.append_cons] at viable
  exact viable.of_append

/-- What the grammar's parser makes of names and operators is grouped by level. -/
theorem parse_of_isChain (built : Grammar.forGoal "Expression" = .ok grammar) (typeContext : Bool)
    (chain : IsChain tokens names operators)
    (waiting : (Lexer.ofString source).pending = tokens ++ [Token.endOfInput place]) :
    ∃ root tree, ({ Parser.ofBuilder grammar (Reduction.builder grammar) with typeContext } :
        Parser Node).parse (.ofString source) = .ok root ∧
      root.expr? = some tree ∧ Grouped tree ∧ tree.operands = names ∧
      tree.operators = operators := by
  obtain ⟨_, parses⟩ := parses_of_build (.fragment "Expression") built typeContext
  have apart : Kind.endOfInput ∉ .identifier :: binaryOperators ∧
      Kind.invalid ∉ .identifier :: binaryOperators := by decide
  have plain (token : Token) (member : token ∈ tokens) :
      token.kind ≠ .endOfInput ∧ token.kind ≠ .invalid :=
    ⟨fun ended => apart.1 (ended ▸ chain.mem_kinds token member),
      fun invalid => apart.2 (invalid ▸ chain.mem_kinds token member)⟩
  have derived := generates_chain built chain.known
  rw [← chain.kinds_eq] at derived
  have shifts (front : List Token) (token : Token) (back : List Token)
      (split : tokens = front ++ token :: back) (joined : token.isJoined) :
      grammar.Viable (front.map (·.kind) ++ [Kind.rightShift]) := by
    subst split
    have written : token.text = token.kind.text := by
      rw [List.append_assoc] at waiting
      exact Lexer.text_of_isJoined rfl waiting joined
    rcases List.mem_cons.mp (chain.mem_kinds token (by simp)) with isName | known
    · -- No name begins with `>`.
      rw [Token.isJoined, written, isName] at joined
      exact absurd joined (by decide)
    · exact viable_shift built chain known
  obtain ⟨root, parsed, fit, builds⟩ :=
    parses.parse_of_fragment (by decide) waiting plain derived shifts
  have reads : Reads "Expression" tokens root :=
    parses.holds_of_sieve sieve_chain reads_of_made (by decide) (by decide)
      (fun token member => ⟨chain.mem_kinds token member, fit token member⟩) builds
  obtain ⟨tree, isTree, grouped, same, between, -⟩ := reads names operators chain
  exact ⟨root, tree, parsed, isTree, grouped, same, between⟩

end Parsing

/-- A text of names with binary operators between them is parsed, whether the parser tells the lexer
where type arguments may close or not. What is made of it has these names and operators in order,
those that bind tighter inside and of those that bind alike the earlier ones; and no other
expression of the same names and operators is like that. -/
theorem parse_of_chain (row : IsRow first rest) :
    ∃ parser, fragmentParser "Expression" = .ok parser ∧ ∀ typeContext, ∃ root tree,
      ∃ names : List Identifier,
        ({ parser with typeContext } : Parser Node).parse (.ofString (chainText first rest)) =
          .ok root ∧
        root.expr? = some tree ∧ Grouped tree ∧ tree.operands = names.map .ofIdentifier ∧
        names.map (·.name) = first :: rest.map (·.2) ∧ tree.operators = rest.map (·.1) ∧
        ∀ other, Grouped other → other.operands = tree.operands →
          other.operators = tree.operators → other = tree := by
  obtain ⟨grammar, built⟩ := Grammar.exists_build (.fragment "Expression") (by decide)
  have made : fragmentParser "Expression" =
      .ok (.ofBuilder grammar (Reduction.builder grammar)) := by
    rw [fragmentParser, Grammar.forGoal, built]
    rfl
  obtain ⟨tokens, place, names, written, chain, waiting⟩ := exists_chain row
  refine ⟨_, made, fun typeContext => ?_⟩
  obtain ⟨root, tree, parsed, isTree, grouped, same, between⟩ :=
    parse_of_isChain built typeContext chain waiting
  exact ⟨root, tree, names, parsed, isTree, grouped, same, written, between,
    fun other grouped' operands operators => eq_of_grouped grouped grouped' operands operators⟩

theorem display_ofIdentifier (identifier : Identifier) :
    (QualifiedName.ofIdentifier identifier).display = identifier.name := by
  simp [QualifiedName.display, QualifiedName.parts, QualifiedName.ofIdentifier]

/-- A shift takes the difference of a difference and a product, as binary operators are read. -/
theorem parse_of_shifted_difference : ∃ parser, fragmentParser "Expression" = .ok parser ∧
    ∀ typeContext, ∃ (root : Node) (a b c d e : QualifiedName),
      ({ parser with typeContext } : Parser Node).parse (.ofString "a - b - c * d >> e") =
        .ok root ∧
      root.expr? = some (.binary (.binary (.binary (.nameExpr a) .minus (.nameExpr b)) .minus
        (.binary (.nameExpr c) .star (.nameExpr d))) .rightShift (.nameExpr e)) ∧
      [a, b, c, d, e].map (·.display) = ["a", "b", "c", "d", "e"] := by
  have row : IsRow "a" [(.minus, "b"), (.minus, "c"), (.star, "d"), (.rightShift, "e")] := by
    decide
  have text : chainText "a" [(.minus, "b"), (.minus, "c"), (.star, "d"), (.rightShift, "e")] =
      "a - b - c * d >> e" := by decide
  obtain ⟨parser, made, parses⟩ := parse_of_chain row
  rw [text] at parses
  refine ⟨parser, made, fun typeContext => ?_⟩
  obtain ⟨root, tree, names, parsed, isTree, -, operands, written, operators, unique⟩ :=
    parses typeContext
  obtain ⟨a, _, rfl, isA, rest⟩ := List.map_eq_cons_iff.mp written
  obtain ⟨b, _, rfl, isB, rest⟩ := List.map_eq_cons_iff.mp rest
  obtain ⟨c, _, rfl, isC, rest⟩ := List.map_eq_cons_iff.mp rest
  obtain ⟨d, _, rfl, isD, rest⟩ := List.map_eq_cons_iff.mp rest
  obtain ⟨e, _, rfl, isE, rest⟩ := List.map_eq_cons_iff.mp rest
  obtain rfl := List.map_eq_nil_iff.mp rest
  let name (identifier : Identifier) : Expr := .nameExpr (.ofIdentifier identifier)
  have first : Grouped (.binary (name a) .minus (name b)) :=
    .binary (by decide) (.name _) (.name _) (by simp [name]) (by simp [name])
  have product : Grouped (.binary (name c) .star (name d)) :=
    .binary (by decide) (.name _) (.name _) (by simp [name]) (by simp [name])
  have second : Grouped (.binary (.binary (name a) .minus (name b)) .minus
      (.binary (name c) .star (name d))) :=
    .binary (by decide) first product (by simp) (by simp; decide)
  have whole : Grouped (.binary (.binary (.binary (name a) .minus (name b)) .minus
      (.binary (name c) .star (name d))) .rightShift (name e)) :=
    .binary (by decide) second (.name _) (by simp; decide) (by simp [name])
  have same := unique _ whole operands.symm operators.symm
  refine ⟨root, _, _, _, _, _, parsed, same ▸ isTree, ?_⟩
  simp only [List.map_cons, List.map_nil, display_ofIdentifier, isA, isB, isC, isD, isE]

end JavaFrontend.Java
