import JavaFrontend.Java.Reduction.Types
import JavaFrontend.Proofs.Reduction.Operands

/-!
What the reductions for names, types and annotations make of their operands, and those that serve
rules of several themes.
-/

namespace JavaFrontend.Java.Reduction

open OperandM Piece NodeSort

/-- What may be the value of an element of an annotation. -/
def elementValues : List NodeSort := expressions ++ [.elementValue, .annotationUse]

/-- What may stand between the brackets of type arguments. -/
def typeArguments : List NodeSort := NodeSort.types ++ [.typeArgument]

variable {row : List Piece} {shape : Shape} {kinds : List Kind} {sorts : List NodeSort}

theorem holds_type (type : TypeExpr) : (Shape.of NodeSort.types).Holds (.type type) := by
  refine Shape.holds_of.mpr ?_
  cases type with
  | primitiveType annotations kind position =>
    exact ⟨.primitiveType, by simp [NodeSort.types], .primitiveType ..⟩
  | classType segments => exact ⟨.classType, by simp [NodeSort.types], .classType _⟩
  | arrayType element dims => exact ⟨.arrayType, by simp [NodeSort.types], .arrayType ..⟩

/-! ### For rules of several themes -/

theorem makes_first (silent : itemSortsOf row = []) :
    Makes (.part shape :: row) [] first shape := by
  intro rule nodes matched
  cases matched with
  | @part _ node _ nodes holds rest =>
    exact ⟨node, _, rfl, holds, by simp [rest.words_eq_nil silent]⟩

theorem makes_empty : Makes [tokens kinds] [] empty (.of [.empty]) :=
  .token fun _ _ => .done rfl (.empty _) rfl

theorem makes_modifier : Makes [tokens kinds] [] modifier (.of [.modifier]) :=
  .token fun _ _ => .done rfl (.modifier _) (by simp)

/-- The first part and the items of the list behind it make up one list. -/
theorem makes_list (solid : sorts.all (!·.isToken)) :
    Makes [one sorts, many sorts] [] list (.oneOrList sorts) := by
  intro rule nodes matched
  refine ⟨.list rule (itemsOf nodes), _, rfl, ?_, by simp⟩
  refine .list rule ?_ fun item member => ?_
  · obtain ⟨first, nodes, rfl, same, -⟩ := matched.items_of_part solid
    simp [same]
  · obtain ⟨sort, among, holds⟩ := matched.items item member
    have among : sort ∈ sorts ∧ sort.isToken = false ∨ sort ∈ sorts := by
      simpa [itemSortsOf, itemSorts, Shape.of, Shape.listOf] using among
    exact ⟨sort, among.elim And.left id, holds⟩

/-! ### Names and types -/

theorem makes_dottedName :
    Makes [one [.identifier], many [.identifier]] [] dottedName (.of [.name]) :=
  .identifier fun first => .allItems chooses_identifier rfl fun rest =>
    .done rfl (.name _) (by simp)

theorem makes_primitiveType :
    Makes [tokens kinds] [] primitiveType (.of [.primitiveType]) := by
  intro rule nodes matched
  cases matched with
  | part holds nothing =>
    cases nothing
    obtain ⟨sort, among, holds⟩ := Shape.holds_of.mp holds
    obtain ⟨kind, -, rfl⟩ := List.mem_map.mp among
    cases holds
    refine ⟨_, _, rfl, Shape.holds_of.mpr ⟨_, List.mem_singleton_self _, .primitiveType ..⟩, ?_⟩
    simp

/-- Annotations in front of a primitive type. -/
theorem makes_annotatedType :
    Makes [one [.annotationUse], many [.annotationUse], one [.primitiveType]] [] primitiveType
      (.of [.primitiveType]) := by
  unfold primitiveType
  refine .peek fun nodes matched => ?_
  have noToken : nodes.head?.bind token? = none := by
    cases matched with
    | part holds =>
      obtain ⟨_, among, holds⟩ := Shape.holds_of.mp holds
      obtain rfl := List.mem_singleton.mp among
      cases holds
      rfl
  simp only [noToken]
  refine .takeUntil [_, _] chooses_type rfl rfl fun front matched => ?_
  obtain ⟨annotations, chosen, same⟩ :=
    chooses_annotationUse.all _ (matched.sort_of_consistsOf [.annotationUse] rfl)
  refine .allAs chosen <| .nextAs_each fun node holds => ?_
  obtain ⟨_, among, holds⟩ := Shape.holds_of.mp holds
  obtain rfl := List.mem_singleton.mp among
  cases holds
  refine ⟨_, rfl, .done rfl (.primitiveType ..) ?_⟩
  simpa using same

theorem chooses_segments : Chooses [.classType] segments? where
  single holds := by cases holds <;> simp [segments?]
  list _ _ := rfl

theorem makes_classType :
    Makes [one [.classType], many [.classType]] [] classType (.of [.classType]) := by
  unfold classType OperandM.types
  rw [bind_assoc]
  refine .items fun nodes matched => ?_
  have all := matched.items_among [.classType] rfl
  obtain ⟨types, areTypes, same⟩ : ∃ types, (itemsOf nodes).mapM type? = some types ∧
      types.map .type = itemsOf nodes := by
    generalize itemsOf nodes = items at all
    induction items with
    | nil => exact ⟨[], rfl, rfl⟩
    | cons item items ih =>
      obtain ⟨⟨_, among, holds⟩, later⟩ := List.forall_mem_cons.mp all
      obtain ⟨types, areTypes, same⟩ := ih later
      obtain rfl := List.mem_singleton.mp among
      cases holds with
      | classType segments =>
        exact ⟨.classType segments :: types, by simp [areTypes, type?], by simp [same]⟩
  obtain ⟨segments, areClasses, words⟩ := chooses_segments.all _ all
  refine .allAs areTypes <| .allAs (same ▸ areClasses) <| .done rfl (.classType _) ?_
  simp [words_flatten, words]

theorem makes_simpleClassType :
    Makes [many [.annotationUse], one [.identifier], opt [.typeArguments]] [] simpleClassType
      (.of [.classType]) :=
  .annotations rfl fun annotations => .identifier fun name => .typeArguments rfl fun arguments =>
    .done rfl (.classType _) (by simp)

theorem makes_arrayType :
    Makes [one NodeSort.types, one [.dims]] [] arrayType (.of NodeSort.types) :=
  .type fun element => .present [_] <| .dims rfl fun dims =>
    .finish rfl (holds_type _) (by simp)

theorem makes_arrayDims :
    Makes [opt [.dims], token .leftBracket, token .rightBracket] [] arrayDims (.of [.dims]) :=
  .dims rfl fun count => .done rfl (.dims _) (by simp)

theorem chooses_typeArgument : Chooses typeArguments typeArgument? where
  single holds := by cases holds <;> simp [typeArgument?, typeArguments, NodeSort.types]
  list _ _ := rfl

theorem makes_typeArgumentList :
    Makes [token .less, one typeArguments, many typeArguments, token .greater] []
      typeArgumentList (.of [.typeArguments]) :=
  .allItems chooses_typeArgument rfl fun arguments => .done rfl (.typeArguments _) (by simp)

theorem makes_anyArgument :
    Makes [token .question] [] wildcard (.of [.typeArgument]) :=
  .expect fun _ _ => .eat_none rfl <| .eat_none rfl <| .done rfl (.typeArgument _) (by simp)

theorem makes_upperBounded :
    Makes [token .question, token .extendsWord, one NodeSort.types] [] wildcard
      (.of [.typeArgument]) :=
  .expect fun _ _ => .eat fun _ _ => .type fun bound => .done rfl (.typeArgument _) (by simp)

theorem makes_lowerBounded :
    Makes [token .question, token .superWord, one NodeSort.types] [] wildcard
      (.of [.typeArgument]) :=
  .expect fun _ _ => .eat_none rfl <| .eat fun _ _ => .type fun bound =>
    .done rfl (.typeArgument _) (by simp)

theorem makes_typeParameterList :
    Makes [token .less, one [.typeParameter], many [.typeParameter], token .greater] []
      typeParameterList (.of [.typeParameters]) := by
  refine .allItems (?_ : Chooses [.typeParameter] _) rfl fun parameters =>
    .done rfl (.typeParameters _) (by simp)
  exact ⟨fun holds => by cases holds <;> simp, fun _ _ => rfl⟩

theorem makes_typeParameter :
    Makes [many [.annotationUse], one [.identifier],
        .maybe [token .extendsWord, one NodeSort.types, many NodeSort.types]] []
      typeParameter (.of [.typeParameter]) := by
  refine .annotations rfl fun annotations => .identifier fun name => .maybe ?_ ?_
  · exact .eat_none rfl <| .done rfl (.typeParameter _) (by simp)
  · exact .eat fun _ _ => .types rfl fun bounds => .done rfl (.typeParameter _) (by simp)

theorem makes_additionalBound :
    Makes [token .ampersand, one NodeSort.types] [] additionalBound (.of NodeSort.types) :=
  .expect fun _ _ => .type fun bound => .finish rfl (holds_type _) (by simp)

/-! ### Annotations -/

theorem chooses_elementPair : Chooses [.elementPair] elementPair? where
  single holds := by cases holds <;> simp [elementPair?]
  list _ _ := rfl

theorem chooses_elementValue : Chooses (.identifier :: elementValues) elementValue? where
  single holds := by
    cases holds <;> simp [elementValue?, Node.expr?, elementValues, expressions]
  list _ _ := rfl

theorem makes_annotationMarker :
    Makes [token .at, one [.name], .maybe [token .leftParen], .maybe [token .rightParen]] []
      annotationUse (.of [.annotationUse]) := by
  refine .expect fun _ _ => .name fun name => .items fun nodes matched => ?_
  rw [matched.items_eq_nil rfl]
  exact .done rfl (.annotationUse _) (by simp)

theorem makes_annotationPairs :
    Makes [token .at, one [.name], token .leftParen, one [.elementPair], many [.elementPair],
        token .rightParen] []
      annotationUse (.of [.annotationUse]) := by
  refine .expect fun _ _ => .name fun name => .items fun nodes matched => ?_
  obtain ⟨inside, same, matched⟩ := matched.items_of_token
  obtain ⟨first, rest, rfl, cons, ⟨_, among, holds⟩, matched⟩ := matched.items_of_part rfl
  obtain ⟨pair, isPair, pairWords⟩ := chooses_elementPair.chosen holds among
  obtain ⟨pairs, chosen, pairsWords⟩ :=
    chooses_elementPair.all _ (matched.items_among [.elementPair] rfl)
  rw [same, cons]
  simp only [isPair]
  refine .allAs chosen <| .done rfl (.annotationUse _) ?_
  simp [pairWords, ← pairsWords]

theorem makes_annotationSingle :
    Makes [token .at, one [.name], token .leftParen, one elementValues, token .rightParen] []
      annotationUse (.of [.annotationUse]) := by
  refine .expect fun _ _ => .name fun name => .items fun nodes matched => ?_
  obtain ⟨inside, same, matched⟩ := matched.items_of_token
  obtain ⟨first, rest, rfl, cons, ⟨_, among, holds⟩, matched⟩ := matched.items_of_part rfl
  rw [same, cons, matched.items_eq_nil rfl]
  have noPair : elementPair? first = none := by
    refine chooses_elementPair.other holds fun pair => ?_
    obtain rfl := List.mem_singleton.mp pair
    exact absurd among (by decide)
  obtain ⟨value, chosen, same⟩ := chooses_elementValue.chosen holds (List.mem_cons_of_mem _ among)
  simp only [noPair]
  refine .bind [] fun rule left matched => ⟨value, [], left, rfl, run_ofNode chosen _, matched, ?_⟩
  exact .done rfl (.annotationUse _) (by simpa using same)

theorem makes_elementPair :
    Makes [one [.identifier], token .assign, one elementValues] [] elementPair
      (.of [.elementPair]) :=
  .identifier fun name => .expect fun _ _ => .nextAs chooses_elementValue rfl fun value =>
    .done rfl (.elementPair _) (by simp)

theorem makes_elementArray :
    Makes [token .leftBrace, .maybe [one elementValues, many elementValues],
        .maybe [token .comma], token .rightBrace] []
      elementArray (.of [.elementValue]) :=
  .allItems chooses_elementValue rfl fun values => .done rfl (.elementValue _) (by simp)

end JavaFrontend.Java.Reduction
