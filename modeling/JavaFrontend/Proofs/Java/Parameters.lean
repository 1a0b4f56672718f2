import JavaFrontend.Proofs.Java.Chains
import JavaFrontend.Proofs.Java.TypeBuilding

/-!
Parameters with brackets behind their names, and what is parsed of them. These are counted together
with those of the type, in 32 bits (`parse_of_brackets`).
-/

namespace JavaFrontend.Java

open OperandM JavaFrontend.Java.Reduction

/-! ### What is left of the grammar -/

open Java.Grammar in
/-- The alternatives for types and for names with brackets. -/
def parameterAlternatives : List Alternative :=
  define "FormalParameter" [["Type", "VariableDeclaratorId"]] ++
  define "VariableDeclaratorId" [[token .identifier, maybe ["Dims"]]] ++ typeAlternatives

theorem sieve_parameter :
    Sieve typeKinds ["Annotation", "VariableModifier"] parameterAlternatives where
  starves := by decide +kernel
  keeps := by decide +kernel
  closed := by decide

/-! ### What is built -/

/-- The tokens are a name with brackets behind it, and the node is its declarator. -/
inductive NamedBy : List Token → Node → Prop where
  | mk (name : Token) {brackets : List Token} {count : Nat} (isName : name.kind = .identifier)
      (pairs : brackets.map (·.kind) = pairsOf count) :
    NamedBy (name :: brackets)
      (.declarator (.declarator ⟨name.text, name.position⟩ (count % UInt32.size) .absent))

/-- The tokens are a type in front of such, and the node is the parameter with all the brackets. -/
inductive DeclaredBy : List Token → Node → Prop where
  | mk {own : List Token} {type : TypeExpr} (written : Written .type own (.type type))
      (name : Token) {brackets : List Token} {count : Nat} (isName : name.kind = .identifier)
      (pairs : brackets.map (·.kind) = pairsOf count) :
    DeclaredBy (own ++ name :: brackets)
      (.parameter (.parameter .nil (type.withDims (count % UInt32.size))
        ⟨name.text, name.position⟩ false))

/-- What is built for a name shows what it was built of. -/
structure ShownParameter (name : String) (tokens : List Token) (node : Node) : Prop where
  type : ShownType name tokens node
  named : name = "VariableDeclaratorId" → NamedBy tokens node
  declared : name = "FormalParameter" → DeclaredBy tokens node

variable {tokens : List Token} {parts : Production} {nodes : List Node} {node : Node}

theorem named_of_made
    (made : Made ShownParameter [.token .identifier, .optional [.rule "Dims"]] tokens parts nodes)
    (reduces : Reduces "VariableDeclaratorId" parts nodes node) : NamedBy tokens node := by
  cases made with
  | token name isName made =>
    obtain ⟨reduction, found, ran⟩ : ∃ reduction,
        table.lookup "VariableDeclaratorId" = some reduction ∧
          (reduction.run ⟨"VariableDeclaratorId", _⟩).1 = .ok node := by
      cases made <;> exact reduces
    cases found
    unfold variableDeclaratorId at ran
    rw [run_bind (run_identifier isName)] at ran
    cases made with
    | absent _ rest =>
      cases rest
      cases ran
      have none : ([] : List Token).map (·.kind) = pairsOf 0 := rfl
      exact .mk name isName none
    | present inside rest =>
      cases rest
      cases inside with
      | rule shown rest =>
        cases rest
        obtain ⟨count, -, pairs, rfl⟩ := shown.type .dims rfl
        cases ran
        rw [List.append_nil, List.append_nil]
        exact .mk name isName pairs

theorem declared_of_made
    (made : Made ShownParameter [.rule "Type", .rule "VariableDeclaratorId"] tokens parts nodes)
    (reduces : Reduces "FormalParameter" parts nodes node) : DeclaredBy tokens node := by
  cases made with
  | @rule _ _ own _ _ first _ shown made =>
    cases made with
    | rule shown' rest =>
      cases rest
      obtain ⟨_, found, ran⟩ := reduces
      cases found
      obtain ⟨name, isName, pairs⟩ := shown'.named rfl
      obtain ⟨type, rfl, written⟩ : ∃ type, first = .type type ∧
          Written .type own (.type type) := by
        cases shown.type .type rfl with
        | type written brackets count pairs => exact ⟨_, rfl, .type written brackets count pairs⟩
      cases ran
      rw [List.append_nil]
      exact .mk written name isName pairs

/-- Each alternative shows what it is made of. -/
theorem shownParameter_of_made : ∀ alternative ∈ parameterAlternatives, ∀ (tokens : List Token)
    (parts : Production) (nodes : List Node) (node : Node), (∀ token ∈ tokens, Fitting token) →
      Made ShownParameter alternative.elements tokens parts nodes →
        Reduces alternative.name parts nodes node →
          ShownParameter alternative.name tokens node := by
  have noType : ∀ part : TypeName, part.name ≠ "FormalParameter" ∧
      part.name ≠ "VariableDeclaratorId" := by
    intro part
    cases part <;> decide
  have others : ∀ alternative ∈ typeAlternatives, alternative.name ≠ "FormalParameter" ∧
      alternative.name ≠ "VariableDeclaratorId" := by decide
  intro alternative member tokens parts nodes node fit made reduces
  rcases List.mem_append.mp member with own | isType
  · rcases List.mem_cons.mp own with rfl | own
    · exact ⟨fun part same => absurd same (noType part).1, by simp,
        fun _ => declared_of_made made reduces⟩
    · obtain rfl := List.mem_singleton.mp own
      exact ⟨fun part same => absurd same (noType part).2,
        fun _ => named_of_made made reduces, by simp⟩
  · exact ⟨shownType_of_made alternative isType tokens parts nodes node fit
        (made.mono fun _ _ _ _ shown => shown.type) reduces,
      fun same => absurd same (others alternative isType).2,
      fun same => absurd same (others alternative isType).1⟩

variable {expansion : Expansion} {grammar : JavaFrontend.Grammar} {parser : Parser Node}
  {name : Token} {own brackets : List Token} {type : TypeExpr} {count : Nat}

/-- What is built for a parameter of a type, a name and brackets is the parameter of these. -/
theorem parameter_of_builds (parses : Parses (.rule "FormalParameter") expansion grammar parser)
    (written : Written .type own (.type type)) (isName : name.kind = .identifier)
    (pairs : brackets.map (·.kind) = pairsOf count)
    (fit : ∀ token ∈ own ++ name :: brackets, Fitting token) {root : Node}
    (built : parser.Builds [.rule "FormalParameter"] (own ++ name :: brackets) [root]) :
    root = .parameter (.parameter .nil (type.withDims (count % UInt32.size))
      ⟨name.text, name.position⟩ false) := by
  have known : ∀ token ∈ own ++ name :: brackets, token.kind ∈ typeKinds := by
    refine List.forall_mem_append.mpr ⟨written.kinds, List.forall_mem_cons.mpr ⟨?_, ?_⟩⟩
    · rw [isName]
      decide
    · intro token member
      have among : token.kind ∈ pairsOf count := pairs ▸ List.mem_map_of_mem member
      rcases mem_pairsOf among with same | same <;> rw [same] <;> decide
  have shown : ShownParameter "FormalParameter" (own ++ name :: brackets) root :=
    parses.holds_of_sieve sieve_parameter shownParameter_of_made (by decide)
      (by decide) (fun token member => ⟨known token member, fit token member⟩) built
  have declared := shown.declared rfl
  generalize same : own ++ name :: brackets = tokens at declared
  obtain ⟨written', name', isName', pairs'⟩ := declared
  have ends {name : Token} {more : List Token} (isName : name.kind = .identifier) :
      Ends .type (name :: more) := .cons isName (by decide)
  obtain ⟨rfl, same, ⟨rfl⟩⟩ := written.unique written' (ends isName) (ends isName') same
  obtain ⟨rfl, rfl⟩ := List.cons.inj same
  have last : Ends .type [] := by simp [Ends]
  obtain ⟨-, -, rfl⟩ := pairs_unique pairs pairs' last last rfl
  rfl

/-! ### Texts -/

theorem means_parameter {alternatives : List Alternative} (all : Grammar.rules ⊆ alternatives)
    {kinds : List Kind} (type : Means alternatives [.rule "Type"] kinds) (count : Nat) :
    Means alternatives [.rule "FormalParameter"] (kinds ++ .identifier :: pairsOf count) := by
  have named :
      Means alternatives [.rule "VariableDeclaratorId"] (.identifier :: pairsOf count) := by
    refine means_name (all (by decide) : ⟨"VariableDeclaratorId",
      [.token .identifier, .optional [.rule "Dims"]]⟩ ∈ alternatives) (.token .identifier ?_)
    cases count with
    | zero => exact .absent _ .nil
    | succ count =>
      rw [← List.append_nil (pairsOf _)]
      exact .present (means_dims all count) .nil
  have bare : Occurs alternatives [.rule "VariableModifier"] [] := .nil
  exact means_name (all (by decide) : ⟨"FormalParameter", [.repeated [.rule
    "VariableModifier"], .rule "Type", .rule "VariableDeclaratorId"]⟩ ∈ alternatives)
    (bare.repeated (type.append named))

theorem means_array {alternatives : List Alternative} (all : Grammar.rules ⊆ alternatives) :
    Means alternatives [.rule "Type"] [.intWord, .leftBracket, .rightBracket] := by
  have element : Means alternatives [.rule "PrimitiveType"] [.intWord] :=
    means_name (all (by decide)) (.token .intWord .nil)
  have array : Means alternatives [.rule "ArrayType"] [.intWord, .leftBracket, .rightBracket] :=
    means_name (all (by decide) : ⟨"ArrayType", [.rule "PrimitiveType", .rule "Dims"]⟩ ∈
      alternatives) (element.append (means_dims all 0))
  exact means_name (all (by decide)) array

/-- An array of numbers, and its name with more brackets behind it. -/
def parameterPieces (count : Nat) : List (Kind × String) :=
  [(.intWord, "int"), (.leftBracket, "["), (.rightBracket, "]"), (.identifier, "a")] ++
    (pairsOf count).map fun kind => (kind, kind.text)

/-- That with a blank between each two. -/
def parameterText (count : Nat) : String := " ".intercalate ((parameterPieces count).map (·.2))

theorem mem_parameterPieces {piece : Kind × String} (count : Nat)
    (member : piece ∈ parameterPieces count) :
    piece ∈ [(Kind.intWord, "int"), (.leftBracket, "["), (.rightBracket, "]"),
      (.identifier, "a")] := by
  rcases List.mem_append.mp member with known | bracket
  · exact known
  · obtain ⟨kind, among, rfl⟩ := List.mem_map.mp bracket
    rcases mem_pairsOf among with rfl | rfl <;> decide

/-- More brackets are added to those that there are. -/
theorem withDims_arrayType (element : TypeExpr) (more : Nat) :
    (Tree.arrayType element 1).withDims (more % UInt32.size) =
      .arrayType element ((1 + more) % UInt32.size) := by
  have added := Nat.add_mod_mod 1 more UInt32.size
  cases rest : more % UInt32.size with
  | zero =>
    rw [rest] at added
    rw [← added]
    rfl
  | succ rest' =>
    rw [rest] at added
    rw [← added]
    rfl

/-- The tokens of such pieces are the array type, the name and the brackets. -/
theorem split_of_pieces {tokens : List Token}
    (same : tokens.map (fun token => (token.kind, token.text)) = parameterPieces count) :
    ∃ (own : List Token) (place : Position) (name : Token) (brackets : List Token),
      tokens = own ++ name :: brackets ∧
      Written .type own (.type (.arrayType (.primitiveType .nil .intWord place) 1)) ∧
      name.kind = .identifier ∧ brackets.map (·.kind) = pairsOf count := by
  obtain ⟨int, _, rfl, isInt, same⟩ := List.map_eq_cons_iff.mp same
  obtain ⟨left, _, rfl, isLeft, same⟩ := List.map_eq_cons_iff.mp same
  obtain ⟨right, _, rfl, isRight, same⟩ := List.map_eq_cons_iff.mp same
  obtain ⟨name, brackets, rfl, isName, same⟩ := List.map_eq_cons_iff.mp same
  obtain ⟨isInt, -⟩ := Prod.mk.inj isInt
  have known : int.kind ∈ primitiveWords := isInt ▸ by decide
  have pair : [left, right].map (·.kind) = pairsOf 1 := by
    rw [List.map_cons, List.map_singleton, (Prod.mk.inj isLeft).1, (Prod.mk.inj isRight).1]
    rfl
  have written := Written.type (.primitive int known) [left, right] 1 pair
  rw [isInt] at written
  refine ⟨_, _, name, brackets, rfl, written, (Prod.mk.inj isName).1, ?_⟩
  simpa [Function.comp_def] using congrArg (List.map Prod.fst) same

/-- All brackets are those of the type, and are counted in 32 bits. -/
theorem parse_of_brackets (count : Nat) : ∃ parser, fragmentParser "FormalParameter" = .ok parser ∧
    ∀ typeContext, ∃ (place : Position) (name : Identifier),
      ({ parser with typeContext } : Parser Node).parse (.ofString (parameterText count)) =
        .ok (.parameter (.parameter .nil (.arrayType (.primitiveType .nil .intWord place)
          ((1 + count) % UInt32.size)) name false)) := by
  obtain ⟨grammar, built⟩ := Grammar.exists_build (.fragment "FormalParameter") (by decide)
  have made : fragmentParser "FormalParameter" = .ok (.ofBuilder grammar (builder grammar)) := by
    rw [fragmentParser, Grammar.forGoal, built]
    rfl
  refine ⟨_, made, fun typeContext => ?_⟩
  obtain ⟨_, parses⟩ := parses_of_build (.fragment "FormalParameter") built typeContext
  have pieces : ∀ piece ∈ [(Kind.intWord, "int"), (.leftBracket, "["), (.rightBracket, "]"),
      (.identifier, "a")], Lexeme.isPiece piece.1 piece.2.toList ∧
        (piece.1 ≠ .endOfInput ∧ piece.1 ≠ .invalid) ∧ piece.2.toList.head? ≠ some '>' := by
    decide +kernel
  have known (piece : Kind × String) (member : piece ∈ parameterPieces count) :=
    pieces piece (mem_parameterPieces count member)
  obtain ⟨tokens, finish, same, waiting⟩ := Lexer.pending_of_pieces (parameterPieces count)
    (fun piece member => (known piece member).1) (Lexer.ofString "").position
  have text : (Lexer.ofString (parameterText count)).pending =
      tokens ++ [Token.endOfInput finish] := by
    rw [← waiting, Lexer.ofString, parameterText, String.toList_intercalate, List.map_map]
    rfl
  have each (token : Token) (member : token ∈ tokens) := known (token.kind, token.text)
    (same ▸ List.mem_map_of_mem member)
  have kinds : tokens.map (·.kind) =
      [.intWord, .leftBracket, .rightBracket] ++ .identifier :: pairsOf count := by
    simpa [Function.comp_def, parameterPieces] using congrArg (List.map Prod.fst) same
  have derived : grammar.Generates [.rule grammar.start]
      (tokens.map (·.kind) ++ [Kind.endOfInput]) :=
    kinds ▸ generates_of_goal (.fragment "FormalParameter") built
      (means_parameter (List.subset_cons_self _ _) (means_array (List.subset_cons_self _ _)) count)
  obtain ⟨own, place, name, brackets, rfl, written, isName, pairs⟩ := split_of_pieces same
  obtain ⟨root, parsed, fit, builds⟩ := parses.parse_of_fragment (by decide) text
    (fun token member => (each token member).2.1) derived fun front token back split joined => by
      have other := (each token (by simp [split])).2.2
      simp [Token.isJoined, other] at joined
  refine ⟨place, ⟨name.text, name.position⟩, ?_⟩
  rw [parsed, parameter_of_builds parses written isName pairs fit builds, withDims_arrayType]

end JavaFrontend.Java
