import JavaFrontend.Java.Reduction.Expressions
import JavaFrontend.Proofs.Java.Statements

/-!
What the reductions for expressions make of their operands.
-/

namespace JavaFrontend

namespace OperandM.Makes

open Java Java.Reduction Piece NodeSort

variable {row : List Piece} {before : List Word} {result : Shape} {separator : Kind}
  {go : Tree .receiver → OperandM Node}

/-! ### What stands before a dot or a double colon -/

theorem receiver_type
    (further : ∀ part : Tree .receiver, Makes row (before ++ part.words) (go part) result) :
    Makes (one NodeSort.types :: Piece.token separator :: row) before
      (Reduction.receiver separator >>= go) result := by
  unfold Reduction.receiver
  simp only [bind_assoc, pure_bind]
  refine .next fun node holds => ?_
  obtain ⟨_, among, holds⟩ := Shape.holds_of.mp holds
  cases holds with
  | primitiveType | classType | arrayType =>
    simp only [bind_assoc, pure_bind]
    exact .expect fun _ _ => further (.typeReceiver _)
  | _ => simp [NodeSort.types] at among

/-- A name is told from the name of an outer object by `super`, which is not behind it. -/
theorem receiver (lack : lacks [.token .superWord] (Piece.token separator :: row))
    (further : ∀ part : Tree .receiver, Makes row (before ++ part.words) (go part) result) :
    Makes (one expressions :: Piece.token separator :: row) before
      (Reduction.receiver separator >>= go) result := by
  unfold Reduction.receiver
  simp only [bind_assoc, pure_bind]
  refine .next fun node holds => ?_
  obtain ⟨_, among, holds⟩ := Shape.holds_of.mp holds
  cases holds with
  | name name =>
    simp only [bind_assoc]
    refine .nextIs_any fun any => .anyIs_false lack ?_
    simp only [Bool.and_false, Bool.false_eq_true, if_false, bind_assoc, pure_bind]
    exact .expect fun _ _ => further (.nameReceiver name)
  | expr | creation | arrayInitializer | literal =>
    simp only [tokenOf?, token?, Option.filter_none, bind_assoc, pure_bind]
    exact ofNode rfl <| .expect fun _ _ => further (.exprReceiver _)
  | _ => simp [expressions] at among

theorem receiver_super
    (further : ∀ part : Tree .receiver, Makes row (before ++ part.words) (go part) result) :
    Makes (Piece.token .superWord :: Piece.token separator :: row) before
      (Reduction.receiver separator >>= go) result := by
  unfold Reduction.receiver
  simp only [bind_assoc, pure_bind]
  refine .next fun node holds => ?_
  obtain ⟨_, among, holds⟩ := Shape.holds_of.mp holds
  obtain rfl := List.mem_singleton.mp among
  cases holds with
  | token part same =>
    have chosen : tokenOf? .superWord (.token part) = some part := by simp [tokenOf?, token?, same]
    simp only [chosen, bind_assoc, pure_bind]
    exact .expect fun _ _ => further (.superReceiver part.position)

theorem receiver_outerSuper
    (further : ∀ part : Tree .receiver, Makes row (before ++ part.words) (go part) result) :
    Makes (one [.name] :: Piece.token .dot :: Piece.token .superWord :: Piece.token separator :: row)
      before (Reduction.receiver separator >>= go) result := by
  unfold Reduction.receiver
  simp only [bind_assoc, pure_bind]
  refine .next fun node holds => ?_
  obtain ⟨_, among, holds⟩ := Shape.holds_of.mp holds
  obtain rfl := List.mem_singleton.mp among
  cases holds with
  | name name =>
    simp only [bind_assoc]
    refine .nextIs <| .anyIs_second ?_
    simp only [Bool.and_self, if_true, bind_assoc, pure_bind]
    exact .expect fun _ _ => .expect fun _ _ => .expect fun _ _ => further (.qualifiedSuper name)

end OperandM.Makes

namespace Java.Reduction

open OperandM Piece NodeSort

variable {row : List Piece} {before : List Word} {result : Shape} {kinds : List Kind}

/-! ### Primary expressions -/

theorem makes_this : Makes [token .thisWord] [] primary (.of [.expr]) :=
  .eat fun _ _ => .done rfl (.expr _) (by simp)

theorem makes_parenthesized :
    Makes [token .leftParen, one expressions, token .rightParen] [] primary (.of [.expr]) :=
  .eat_none rfl <| .eat fun _ _ => .expr fun value => .done rfl (.expr _) (by simp)

theorem makes_qualifiedThis :
    Makes [one [.name], token .dot, token .thisWord] [] primary (.of [.expr]) :=
  .eat_none rfl <| .eat_none rfl <| .name fun outer => .done rfl (.expr _) (by simp)

@[simp] theorem words_namedType (name : QualifiedName) :
    (namedType name).words = words name := by
  rw [namedType, Tree.words, Row.words_ofList, words_qualifiedName]
  induction name.parts with
  | nil => rfl
  | cons part parts ih => simp [ih]

theorem makes_classLiteral :
    Makes [one (.token .voidWord :: .name :: NodeSort.types), opt [.dims], token .dot,
        token .classWord] []
      classLiteral (.of [.expr]) := by
  refine .nextAs_each fun node holds => ?_
  obtain ⟨_, among, holds⟩ := Shape.holds_of.mp holds
  cases holds with
  | token part => exact ⟨_, rfl, .dims rfl fun dims => .done rfl (.expr _) (by simp)⟩
  | name part => exact ⟨_, rfl, .dims rfl fun dims => .done rfl (.expr _) (by simp)⟩
  | primitiveType | classType | arrayType =>
    exact ⟨_, rfl, .dims rfl fun dims => .done rfl (.expr _) (by simp)⟩
  | _ => simp [NodeSort.types] at among

/-! ### Objects and arrays -/

theorem makes_creation :
    Makes [token .newWord, opt [.typeArguments], one NodeSort.types, opt [.diamond],
        one [.arguments], opt [.classBody]] []
      creation (.of [.creation]) := by
  refine .expect fun _ _ => .typeArguments rfl fun typeArguments => .type fun type =>
    .take (?_ : Chooses [.diamond] _) rfl rfl fun diamond => .arguments fun arguments =>
    .take chooses_classBody rfl rfl fun body => .done rfl (.creation ..) (by cases diamond <;> simp)
  exact ⟨fun holds => by cases holds <;> simp, fun _ _ => rfl⟩

theorem makes_qualifiedCreation :
    Makes [one expressions, token .dot, one [.creation]] [] qualifiedCreation (.of [.expr]) := by
  refine .expr fun outer => .expect fun _ _ => .nextAs_each fun node holds => ?_
  obtain ⟨_, among, holds⟩ := Shape.holds_of.mp holds
  obtain rfl := List.mem_singleton.mp among
  cases holds with
  | creation => exact ⟨_, rfl, .done rfl (.expr _) (by simp)⟩

theorem makes_diamond : Makes [token .less, token .greater] [] diamond (.of [.diamond]) := by
  intro rule nodes matched
  exact ⟨.diamond, _, rfl, Shape.holds_of.mpr ⟨_, List.mem_singleton_self _, .diamond⟩, by
    simp [matched.words_eq_nil rfl]⟩

theorem makes_argumentList :
    Makes [token .leftParen, .maybe [one expressions, many expressions], token .rightParen] []
      argumentList (.of [.arguments]) :=
  .exprs rfl fun values => .done rfl (.arguments _) (by simp)

theorem makes_arrayInitializer :
    Makes [token .leftBrace, .maybe [one expressions, many expressions], .maybe [token .comma],
        token .rightBrace] []
      arrayInitializer (.of [.arrayInitializer]) :=
  .exprs rfl fun values => .done rfl (.arrayInitializer _) (by simp)

theorem makes_newArray :
    Makes [token .newWord, one NodeSort.types, exprList, opt [.dims]] [] arrayCreation
      (.of [.expr]) := by
  refine .expect fun _ _ => .type fun element => .next fun node holds => ?_
  have all : ∀ item ∈ node.items, ∃ sort ∈ .identifier :: expressions, sort.Holds item := by
    intro item member
    obtain ⟨sort, among, holds⟩ := holds.items item member
    exact ⟨sort, List.mem_cons_of_mem _ (by simpa [Shape.oneOrList] using among), holds⟩
  split
  · cases holds with
    | single among holds =>
      cases holds
      simp [Shape.oneOrList, expressions] at among
  · exact .nodeItems chooses_expr all fun lengths => .dims rfl fun dims =>
      .done rfl (.expr _) (by simp)

theorem makes_newArrayOf :
    Makes [token .newWord, one NodeSort.types, one [.dims], one [.arrayInitializer]] []
      arrayCreation (.of [.expr]) := by
  refine .expect fun _ _ => .type fun element => .next fun node holds => ?_
  obtain ⟨_, among, holds⟩ := Shape.holds_of.mp holds
  obtain rfl := List.mem_singleton.mp among
  cases holds with
  | dims count =>
    refine .nextAs_each fun node holds => ?_
    obtain ⟨_, among, holds⟩ := Shape.holds_of.mp holds
    obtain rfl := List.mem_singleton.mp among
    cases holds with
    | arrayInitializer values => exact ⟨_, rfl, .done rfl (.expr _) (by simp)⟩

theorem makes_dimensionLength :
    Makes [token .leftBracket, one expressions, token .rightBracket] [] dimensionLength
      (.of [.expr]) :=
  .expect fun _ _ => .expr fun length => .done rfl (.expr _) (by simp)

/-! ### Fields and methods -/

theorem makes_fieldAccess :
    Makes [one expressions, token .dot, one [.identifier]] [] fieldAccess (.of [.expr]) :=
  .receiver rfl fun receiver => .identifier fun name => .done rfl (.expr _) (by simp)

theorem makes_superField :
    Makes [token .superWord, token .dot, one [.identifier]] [] fieldAccess (.of [.expr]) :=
  .receiver_super fun receiver => .identifier fun name => .done rfl (.expr _) (by simp)

theorem makes_outerSuperField :
    Makes [one [.name], token .dot, token .superWord, token .dot, one [.identifier]] []
      fieldAccess (.of [.expr]) :=
  .receiver_outerSuper fun receiver => .identifier fun name => .done rfl (.expr _) (by simp)

theorem makes_arrayAccess :
    Makes [one expressions, token .leftBracket, one expressions, token .rightBracket] []
      arrayAccess (.of [.expr]) :=
  .expr fun array => .expect fun _ _ => .expr fun index => .done rfl (.expr _) (by simp)

theorem words_qualifier (name : QualifiedName) :
    words name.qualifier? ++ [.identifier name.last] = words name := by
  rw [words_qualifiedName, ← name.qualifier?_append_last, words_append]
  cases name.qualifier? <;> rfl

/-- The name of a method is the last of the names before the arguments. -/
theorem makes_namedInvocation :
    Makes [one [.name], one [.arguments]] [] methodInvocation (.of [.expr]) := by
  refine .count fun nodes matched => ?_
  have two : nodes.length = 2 := by
    cases matched with
    | part _ rest =>
      cases rest with
      | part _ nothing =>
        cases nothing
        rfl
  simp only [two]
  refine .name fun name => .arguments fun arguments => ?_
  rw [← words_qualifier name]
  cases qualifier : name.qualifier? with
  | none => exact .done rfl (.expr _) (by simp)
  | some qualifier => exact .done rfl (.expr _) (by simp)

/-- Behind a receiver that is no part of the name stand at least three more operands. -/
theorem makes_invocation (long : 3 ≤ solidCount row)
    (further : Makes row [] (receiver .dot >>= fun receiver => do
      let typeArguments ← OperandM.typeArguments
      let name ← identifier
      let arguments ← arguments
      return .expr (.callOn receiver typeArguments name arguments)) (.of [.expr])) :
    Makes row [] methodInvocation (.of [.expr]) := by
  refine .count fun nodes matched => ?_
  have more : nodes.length ≠ 2 := by
    have := matched.solidCount_le
    omega
  simp only [more]
  exact further

theorem makes_methodInvocation :
    Makes [one expressions, token .dot, opt [.typeArguments], one [.identifier],
        one [.arguments]] []
      methodInvocation (.of [.expr]) :=
  makes_invocation (by decide) <| .receiver rfl fun receiver => .typeArguments rfl
    fun typeArguments => .identifier fun name => .arguments fun arguments =>
    .done rfl (.expr _) (by simp)

theorem makes_superInvocation :
    Makes [token .superWord, token .dot, opt [.typeArguments], one [.identifier],
        one [.arguments]] []
      methodInvocation (.of [.expr]) :=
  makes_invocation (by decide) <| .receiver_super fun receiver => .typeArguments rfl
    fun typeArguments => .identifier fun name => .arguments fun arguments =>
    .done rfl (.expr _) (by simp)

theorem makes_outerSuperInvocation :
    Makes [one [.name], token .dot, token .superWord, token .dot, opt [.typeArguments],
        one [.identifier], one [.arguments]] []
      methodInvocation (.of [.expr]) :=
  makes_invocation (by decide) <| .receiver_outerSuper fun receiver => .typeArguments rfl
    fun typeArguments => .identifier fun name => .arguments fun arguments =>
    .done rfl (.expr _) (by simp)

theorem makes_methodReference :
    Makes [one expressions, token .doubleColon, opt [.typeArguments], one [.identifier]] []
      methodReference (.of [.expr]) :=
  .receiver rfl fun receiver => .typeArguments rfl fun typeArguments => .eat_none rfl <|
    .identifier fun name => .done rfl (.expr _) (by simp)

theorem makes_superReference :
    Makes [token .superWord, token .doubleColon, opt [.typeArguments], one [.identifier]] []
      methodReference (.of [.expr]) :=
  .receiver_super fun receiver => .typeArguments rfl fun typeArguments => .eat_none rfl <|
    .identifier fun name => .done rfl (.expr _) (by simp)

theorem makes_outerSuperReference :
    Makes [one [.name], token .dot, token .superWord, token .doubleColon, opt [.typeArguments],
        one [.identifier]] []
      methodReference (.of [.expr]) :=
  .receiver_outerSuper fun receiver => .typeArguments rfl fun typeArguments => .eat_none rfl <|
    .identifier fun name => .done rfl (.expr _) (by simp)

theorem makes_constructorReference :
    Makes [one NodeSort.types, token .doubleColon, opt [.typeArguments], token .newWord] []
      methodReference (.of [.expr]) :=
  .receiver_type fun receiver => .typeArguments rfl fun typeArguments => .eat fun _ _ =>
    .done rfl (.expr _) (by simp)

/-! ### Lambdas -/

theorem makes_lambda :
    Makes [one [.lambdaParameters], token .arrow, one (.block :: expressions)] [] lambda
      (.of [.expr]) := by
  refine .nextAs (?_ : Chooses [.lambdaParameters] _) rfl fun parameters => .expect fun _ _ =>
    .next fun node holds => ?_
  · exact ⟨fun holds => by cases holds <;> simp [lambdaParameters?], fun _ _ => rfl⟩
  · obtain ⟨_, among, holds⟩ := Shape.holds_of.mp holds
    cases holds with
    | block body => exact .done rfl (.expr _) (by simp)
    | expr | creation | arrayInitializer | name | literal =>
      exact .ofNode rfl <| .done rfl (.expr _) (by simp)
    | _ => simp [expressions] at among

/-- The parentheses around the parameters of a lambda. -/
def parens : List NodeSort := [.token .leftParen, .token .rightParen]

theorem isLambdaPart_of {sort : NodeSort} {node : Node} (holds : sort.Holds node)
    (among : sort ∈ .identifier :: .parameter :: parens) : isLambdaPart node := by
  cases holds <;> first | rfl | simp [parens] at among

theorem makes_inferredParameters (all : consistsOf (.identifier :: parens) row) :
    Makes row [] lambdaParameters (.of [.lambdaParameters]) := by
  refine .rest fun nodes matched => ?_
  have parts := matched.sort_of_consistsOf _ all
  refine .allAs (mapM_guard _ fun node member => ?_) ?_
  · obtain ⟨sort, among, holds⟩ := parts node member
    refine isLambdaPart_of holds ?_
    rw [List.mem_cons] at among ⊢
    exact among.imp_right (List.mem_cons_of_mem _)
  · rw [chooses_parameter.filterMap_eq_nil rfl parts]
    refine .done rfl (.lambdaParameters _) ?_
    have same := chooses_identifier.words_filterMap _ fun node member => by
      obtain ⟨sort, among, holds⟩ := parts node member
      refine ⟨sort, holds, ?_⟩
      cases holds <;> simp [parens] at among ⊢
    simpa using same

theorem makes_formalParameters (all : consistsOf (.parameter :: parens) row) :
    Makes row [] lambdaParameters (.of [.lambdaParameters]) := by
  refine .rest fun nodes matched => ?_
  have parts := matched.sort_of_consistsOf _ all
  have same := chooses_parameter.words_filterMap _ fun node member => by
    obtain ⟨sort, among, holds⟩ := parts node member
    refine ⟨sort, holds, ?_⟩
    cases holds <;> simp [parens] at among ⊢
  refine .allAs (mapM_guard _ fun node member => ?_) ?_
  · obtain ⟨sort, among, holds⟩ := parts node member
    exact isLambdaPart_of holds (List.mem_cons_of_mem _ among)
  · rw [words_flatMap_items] at same
    split
    · next none =>
      rw [chooses_identifier.filterMap_eq_nil rfl parts]
      exact .done rfl (.lambdaParameters _) (by simpa [none] using same)
    · exact .done rfl (.lambdaParameters _) (by simpa using same)

/-! ### Operators -/

theorem makes_assignment :
    Makes [one expressions, tokens kinds, one expressions] [] assignment (.of [.expr]) :=
  .expr fun target => .token fun _ _ => .expr fun value => .done rfl (.expr _) (by simp)

theorem makes_conditional :
    Makes [one expressions, token .question, one expressions, token .colon, one expressions] []
      conditional (.of [.expr]) :=
  .expr fun condition => .expect fun _ _ => .expr fun ifTrue => .expect fun _ _ =>
    .expr fun ifFalse => .done rfl (.expr _) (by simp)

theorem makes_binary (plain : kinds.all (· ≠ .instanceofWord)) :
    Makes [one expressions, tokens kinds, one expressions] [] binary (.of [.expr]) := by
  refine .expr fun left => .token fun operator known => ?_
  have other : operator.kind ≠ .instanceofWord := by
    simpa using List.all_eq_true.mp plain _ known
  simp only [other]
  exact .expr fun right => .done rfl (.expr _) (by simp)

theorem makes_instanceOf :
    Makes [one expressions, tokens [.instanceofWord], one NodeSort.types] [] binary
      (.of [.expr]) := by
  refine .expr fun value => .token fun operator known => ?_
  simp only [List.mem_singleton] at known
  simp only [known]
  exact .type fun type => .done rfl (.expr _) (by simp)

theorem makes_leading :
    Makes [tokens kinds, one expressions] [] leading (.of [.expr]) :=
  .token fun _ _ => .expr fun operand => .done rfl (.expr _) (by simp)

theorem makes_trailing :
    Makes [one expressions, tokens kinds] [] trailing (.of [.expr]) :=
  .expr fun operand => .token fun _ _ => .done rfl (.expr _) (by simp)

theorem makes_cast :
    Makes [token .leftParen, one NodeSort.types, many NodeSort.types, token .rightParen,
        one expressions] []
      cast (.of [.expr]) := by
  refine .expect fun _ _ => .type fun type =>
    .takeUntil [many NodeSort.types] (chooses_tokenOf .rightParen) rfl rfl fun front matched => ?_
  obtain ⟨others, chosen, same⟩ :=
    chooses_type.all _ (matched.sort_of_consistsOf NodeSort.types rfl)
  refine .allAs chosen <| .expect fun _ _ => .expr fun value => .done rfl (.expr _) ?_
  simpa using same

end Java.Reduction

end JavaFrontend
