import JavaFrontend.Java.Reduction.Declarations
import JavaFrontend.Proofs.Java.Types

/-!
What the reductions for compilation units, types and their members make of their operands.
-/

namespace JavaFrontend.Java.Reduction

open OperandM Piece NodeSort

/-- What may stand among the types of a compilation unit: types and lone semicolons. -/
def declarations : List NodeSort := [.typeDeclaration, .empty]

/-- What may stand in the body of a class. -/
def members : List NodeSort := [.member, .typeDeclaration, .block, .empty]

def declarators : List NodeSort := [.declarator, .bareDeclarator]

/-- The result of a method: a type or `void`. -/
def results : List NodeSort := .token .voidWord :: NodeSort.types

/-- Declarators, one by itself or several in a list. -/
abbrev declaratorList : Piece := .part (.oneOrList declarators)

/-- Parameters, one by itself or several in a list. -/
abbrev parameterList : Piece := .part (.oneOrList [.parameter])

/-! ### What is selected -/

theorem chooses_package : Chooses [.package] package? where
  single holds := by cases holds <;> simp [package?]
  list _ _ := rfl

theorem chooses_importing : Chooses [.importing] importing? where
  single holds := by cases holds <;> simp [importing?]
  list _ _ := rfl

theorem chooses_typeDeclaration : Chooses [.typeDeclaration] typeDeclaration? where
  single holds := by cases holds <;> simp [typeDeclaration?]
  list _ _ := rfl

theorem chooses_classBody : Chooses [.classBody] classBody? where
  single holds := by cases holds <;> simp [classBody?]
  list _ _ := rfl

theorem chooses_declarator : Chooses declarators declarator? where
  single holds := by cases holds <;> simp [declarator?, declarators]
  list _ _ := rfl

theorem chooses_parameter : Chooses [.parameter] parameter? where
  single holds := by cases holds <;> simp [parameter?]
  list _ _ := rfl

theorem chooses_result : Chooses results result? where
  single holds := by
    cases holds with
    | @token kind part same => by_cases void : part.kind = .voidWord <;>
        simp [← same, result?, results, NodeSort.types, void]
    | _ => simp [result?, results, NodeSort.types]
  list _ _ := rfl

theorem chooses_methodBody : Chooses [.block, .empty] methodBody? where
  single holds := by cases holds <;> simp [methodBody?]
  list _ _ := rfl

theorem chooses_enumBody : Chooses [.enumBody] enumBody? where
  single holds := by cases holds <;> simp [enumBody?]
  list _ _ := rfl

theorem chooses_enumConstant : Chooses [.enumConstant] enumConstant? where
  single holds := by cases holds <;> simp [enumConstant?]
  list _ _ := rfl

end JavaFrontend.Java.Reduction

namespace JavaFrontend.OperandM.Makes

open Java Java.Reduction Piece NodeSort

variable {row : List Piece} {before : List Word} {result : Shape}

/-! ### Rules for the parts of declarations -/

theorem takeSuperclass {go : Option TypeExpr → OperandM Node} (avoid : avoids [.superclass] row)
    (further : ∀ part, Makes row (before ++ words part) (go part) result) :
    Makes (opt [.superclass] :: row) before (Reduction.takeSuperclass >>= go) result := by
  refine take (?_ : Chooses [.superclass] _) rfl avoid further
  exact ⟨fun holds => by cases holds <;> simp, fun _ _ => rfl⟩

theorem takeInterfaces {go : List TypeExpr → OperandM Node} (avoid : avoids [.interfaces] row)
    (further : ∀ parts, Makes row (before ++ words parts) (go parts) result) :
    Makes (opt [.interfaces] :: row) before (Reduction.takeInterfaces >>= go) result := by
  unfold Reduction.takeInterfaces
  rw [bind_assoc]
  refine take (?_ : Chooses [.interfaces] _) rfl avoid fun parts => ?_
  · exact ⟨fun holds => by cases holds <;> simp, fun _ _ => rfl⟩
  · rw [pure_bind]
    simpa using further (parts.getD [])

theorem takeExceptions {go : List TypeExpr → OperandM Node} (avoid : avoids [.exceptions] row)
    (further : ∀ parts, Makes row (before ++ words parts) (go parts) result) :
    Makes (opt [.exceptions] :: row) before (Reduction.takeExceptions >>= go) result := by
  unfold Reduction.takeExceptions
  rw [bind_assoc]
  refine take (?_ : Chooses [.exceptions] _) rfl avoid fun parts => ?_
  · exact ⟨fun holds => by cases holds <;> simp, fun _ _ => rfl⟩
  · rw [pure_bind]
    simpa using further (parts.getD [])

/-- Members, without the lone semicolons among them. -/
theorem members {go : List (Tree .member) → OperandM Node}
    (within : (itemSortsOf row).all (· ∈ Reduction.members))
    (further : ∀ parts, Makes [] (before ++ words parts) (go parts) result) :
    Makes row before (OperandM.items >>= fun nodes => membersOf nodes >>= go) result := by
  unfold membersOf
  simp only [bind_assoc, pure_bind]
  refine allItems (?_ : Chooses Reduction.members _) within fun parts => ?_
  · exact ⟨fun holds => by cases holds <;> simp [Reduction.members, Node.member?], fun _ _ => rfl⟩
  · have made := further (parts.filterMap id)
    rwa [words_filterMap_id] at made

/-- Modifiers, a type and variables of the type. -/
theorem varDeclaration {go : Tree .varDeclaration → OperandM Node}
    (further : ∀ part, Makes row (before ++ part.words) (go part) result) :
    Makes (many NodeSort.modifiers :: one NodeSort.types :: declaratorList :: row) before
      (Reduction.varDeclaration >>= go) result := by
  unfold Reduction.varDeclaration
  simp only [bind_assoc, pure_bind]
  exact .modifiers rfl fun modifiers => .type fun type =>
    .nextItems chooses_declarator rfl fun declarators =>
      by simpa using further (.varDeclaration modifiers type declarators)

/-- The parameters of a method, if it has any. -/
theorem takeParameters {go : List (Tree .parameter) → OperandM Node}
    (further : ∀ parts,
      Makes (Piece.token .rightParen :: row) (before ++ words parts) (go parts) result) :
    Makes (.maybe [parameterList] :: Piece.token .rightParen :: row) before
      (Reduction.takeParameters >>= go) result := by
  unfold Reduction.takeParameters
  rw [bind_assoc]
  refine bind (.token .rightParen :: row) fun rule nodes matched => ?_
  cases matched with
  | skip rest =>
    have none : ([] : List Node).mapM parameter? = some [] := rfl
    refine ⟨.none, [], nodes, rfl, run_take_none ?_, rest, allAs none (by simpa using further [])⟩
    cases rest with
    | part holds =>
      obtain ⟨_, among, holds⟩ := Shape.holds_of.mp holds
      obtain rfl := List.mem_singleton.mp among
      cases holds
      rfl
  | @take _ _ front nodes body rest =>
    cases body with
    | part holds nothing =>
      cases nothing
      cases holds with
      | single among holds =>
        obtain rfl := List.mem_singleton.mp among
        cases holds with
        | parameter part =>
          have chosen : [Node.parameter part].mapM parameter? = some [part] := rfl
          exact ⟨some [.parameter part], [_], nodes, rfl, run_take_some rfl, rest,
            allAs chosen (by simpa using further [part])⟩
      | list name _ all =>
        obtain ⟨parts, chosen, same⟩ := chooses_parameter.all _ all
        exact ⟨some _, [_], nodes, rfl, run_take_some rfl, rest,
          allAs chosen (by simpa [same] using further parts)⟩

end JavaFrontend.OperandM.Makes

namespace JavaFrontend.Java.Reduction

open OperandM Piece NodeSort

variable {row : List Piece} {before : List Word} {result : Shape} {kinds : List Kind}

/-! ### Compilation units -/

section Units

variable {packages imports types : List Node} {importPieces typePieces : List Piece}

/-- The parts of a compilation unit in order: at most one package, then imports, then types. -/
theorem makes_unitOf (silent : itemSortsOf row = []) (few : packages.length ≤ 1)
    (arePackages : ∀ node ∈ packages, ∃ sort ∈ [NodeSort.package], sort.Holds node)
    (areImports : ∀ node ∈ imports, ∃ sort ∈ [NodeSort.importing], sort.Holds node)
    (areTypes : ∀ node ∈ types, ∃ sort ∈ declarations, sort.Holds node) :
    Makes row (words packages ++ words imports ++ words types)
      (unitOf (packages ++ imports ++ types)) (.of [.unit]) := by
  unfold unitOf
  refine .allAs (mapM_guard _ fun node member => ?_) ?_
  · rcases List.mem_append.mp member with member | member
    · rcases List.mem_append.mp member with member | member
      · obtain ⟨_, among, holds⟩ := arePackages node member
        obtain rfl := List.mem_singleton.mp among
        cases holds
        rfl
      · obtain ⟨_, among, holds⟩ := areImports node member
        obtain rfl := List.mem_singleton.mp among
        cases holds
        rfl
    · obtain ⟨_, among, holds⟩ := areTypes node member
      cases holds <;> first | rfl | simp [declarations] at among
  · have none := chooses_package.filterMap_eq_nil rfl areImports
    have none' := chooses_package.filterMap_eq_nil rfl areTypes
    have none₂ := chooses_importing.filterMap_eq_nil rfl arePackages
    have none₂' := chooses_importing.filterMap_eq_nil rfl areTypes
    have none₃ := chooses_typeDeclaration.filterMap_eq_nil rfl arePackages
    have none₃' := chooses_typeDeclaration.filterMap_eq_nil rfl areImports
    have few : (packages.filterMap package?).length ≤ 1 :=
      Nat.le_trans (List.length_filterMap_le ..) few
    have declared : words (types.filterMap typeDeclaration?) = words types :=
      chooses_typeDeclaration.words_filterMap types fun node member => by
        obtain ⟨sort, among, holds⟩ := areTypes node member
        refine ⟨sort, holds, ?_⟩
        cases holds <;> simp [declarations] at among ⊢
    refine .done silent (.unit _) ?_
    simp [none, none', none₂, none₂', none₃, none₃', words_getLast? _ few, declared,
      chooses_package.words_filterMap_of_all arePackages,
      chooses_importing.words_filterMap_of_all areImports, -List.getLast?_filterMap]

theorem makes_sections (within : (itemSortsOf importPieces).all (· ∈ [NodeSort.importing]))
    (within' : (itemSortsOf typePieces).all (· ∈ declarations)) :
    Makes (opt [.package] :: (importPieces ++ typePieces)) [] compilationUnit (.of [.unit]) := by
  refine .items fun nodes matched => ?_
  obtain ⟨front, rest, rfl, first, rest'⟩ := matches_append [_] matched
  obtain ⟨middle, back, rfl, second, third⟩ := matches_append _ rest'
  have few := first.items_le_one rfl
  simpa [itemsOf_append] using
    makes_unitOf rfl few (first.items_among _ rfl) (second.items_among _ within)
      (third.items_among _ within')

end Units

theorem makes_unitWithPackage :
    Makes [one [.package], many [.importing], many declarations] [] compilationUnit
      (.of [.unit]) :=
  (makes_sections rfl rfl : Makes (_ :: ([_] ++ [_])) _ _ _).present [_]

theorem makes_unitWithImports :
    Makes [one [.importing], many [.importing], many declarations] [] compilationUnit
      (.of [.unit]) :=
  (makes_sections rfl rfl : Makes (_ :: ([_, _] ++ [_])) _ _ _).missing

theorem makes_unitOfTypes :
    Makes [one declarations, many declarations] [] compilationUnit (.of [.unit]) :=
  (makes_sections rfl rfl : Makes (_ :: ([] ++ [_, _])) _ _ _).missing

/-- The goal of source files without anything in them. -/
theorem makes_emptyUnit : Makes [token .endOfInput] [] unitGoal (.of [.unit]) :=
  .nextIs <| .finish rfl (Shape.holds_of.mpr ⟨.unit, List.mem_singleton_self _, .unit _⟩) (by simp)

theorem makes_unitGoal :
    Makes [one (.unit :: .package :: .importing :: declarations), token .endOfInput] [] unitGoal
      (.of [.unit]) := by
  refine .nextIs_false rfl <| .next fun node holds => ?_
  obtain ⟨sort, among, holds⟩ := Shape.holds_of.mp holds
  have none (sorts : List NodeSort) : ∀ node ∈ ([] : List Node), ∃ sort ∈ sorts, sort.Holds node :=
    fun _ member => nomatch member
  have only {sorts : List NodeSort} (among : sort ∈ sorts) :
      ∀ other ∈ [node], ∃ sort ∈ sorts, sort.Holds other :=
    fun _ member => List.mem_singleton.mp member ▸ ⟨sort, among, holds⟩
  have noPackage : ([] : List Node).length ≤ 1 := Nat.zero_le 1
  cases holds with
  | unit part => exact .done rfl (.unit part) rfl
  | package part =>
    have single : [Node.package part].length ≤ 1 := Nat.le_refl 1
    simpa using makes_unitOf rfl single (only (by simp)) (none _) (none _)
  | importing part =>
    simpa using makes_unitOf rfl noPackage (none _) (only (by simp)) (none _)
  | typeDeclaration part =>
    simpa using makes_unitOf rfl noPackage (none _) (none _) (only (by simp [declarations]))
  | empty position =>
    simpa using makes_unitOf rfl noPackage (none _) (none _) (only (by simp [declarations]))
  | _ => simp [declarations] at among

theorem makes_packageDeclaration :
    Makes [many [.annotationUse], token .packageWord, one [.name], token .semicolon] []
      packageDeclaration (.of [.package]) :=
  .annotations rfl fun annotations => .expect fun _ _ => .name fun name =>
    .done rfl (.package _) (by simp)

theorem makes_importDeclaration (silent : itemSortsOf row = []) :
    Makes (token .importWord :: one [.name] :: row) [] importDeclaration (.of [.importing]) :=
  .expect fun _ _ => .eat_none rfl <| .name fun name => .anyIs fun _ =>
    .done silent (.importing _) (by simp)

theorem makes_staticImport (silent : itemSortsOf row = []) :
    Makes (token .importWord :: token .staticWord :: one [.name] :: row) [] importDeclaration
      (.of [.importing]) :=
  .expect fun _ _ => .eat fun _ _ => .name fun name => .anyIs fun _ =>
    .done silent (.importing _) (by simp)

/-! ### Types and their bodies -/

theorem makes_superclass :
    Makes [token .extendsWord, one NodeSort.types] [] superclass (.of [.superclass]) :=
  .expect fun _ _ => .type fun type => .done rfl (.superclass _) (by simp)

theorem makes_interfaces :
    Makes [tokens kinds, one NodeSort.types, many NodeSort.types] [] interfaces
      (.of [.interfaces]) :=
  .token fun _ _ => .types rfl fun types => .done rfl (.interfaces _) (by simp)

theorem makes_exceptions :
    Makes [token .throwsWord, one NodeSort.types, many NodeSort.types] [] exceptions
      (.of [.exceptions]) :=
  .expect fun _ _ => .types rfl fun types => .done rfl (.exceptions _) (by simp)

theorem makes_classDeclaration :
    Makes [many modifiers, token .classWord, one [.identifier], opt [.typeParameters],
        opt [.superclass], opt [.interfaces], one [.classBody]] []
      classDeclaration (.of [.typeDeclaration]) :=
  .modifiers rfl fun modifiers => .expect fun _ _ => .identifier fun name =>
    .typeParameters rfl fun typeParameters => .takeSuperclass rfl fun superclass =>
    .takeInterfaces rfl fun interfaces => .nextAs chooses_classBody rfl fun body =>
    .done rfl (.typeDeclaration _) (by simp)

theorem makes_interfaceDeclaration :
    Makes [many modifiers, token .interfaceWord, one [.identifier], opt [.typeParameters],
        opt [.interfaces], one [.classBody]] []
      interfaceDeclaration (.of [.typeDeclaration]) :=
  .modifiers rfl fun modifiers => .expect fun _ _ => .identifier fun name =>
    .typeParameters rfl fun typeParameters => .takeInterfaces rfl fun interfaces =>
    .nextAs chooses_classBody rfl fun body => .done rfl (.typeDeclaration _) (by simp)

theorem makes_classBody :
    Makes [token .leftBrace, many members, token .rightBrace] [] classBody (.of [.classBody]) :=
  .expect fun _ _ => .members rfl fun members => .done rfl (.classBody _) (by simp)

theorem makes_staticInitializer :
    Makes [token .staticWord, one [.block]] [] staticInitializer (.of [.member]) :=
  .expect fun _ _ => .block fun body => .done rfl (.member _) (by simp)

/-! ### Members -/

theorem makes_fieldDeclaration :
    Makes [many modifiers, one NodeSort.types, declaratorList, token .semicolon] []
      fieldDeclaration (.of [.member]) :=
  .varDeclaration fun declared => .done rfl (.member _) (by simp)

theorem makes_variableDeclarator :
    Makes [one [.bareDeclarator], token .assign, one expressions] [] variableDeclarator
      (.of [.declarator]) := by
  refine .nextAs_each fun node holds => ?_
  obtain ⟨_, among, holds⟩ := Shape.holds_of.mp holds
  obtain rfl := List.mem_singleton.mp among
  cases holds with
  | bareDeclarator name dims =>
    exact ⟨_, rfl, .expect fun _ _ => .expr fun initial => .done rfl (.declarator _) (by simp)⟩

theorem makes_variableDeclaratorId :
    Makes [one [.identifier], opt [.dims]] [] variableDeclaratorId (.of [.bareDeclarator]) :=
  .identifier fun name => .dims rfl fun dims => .done rfl (.bareDeclarator ..) (by simp)

theorem makes_methodDeclaration :
    Makes [many modifiers, opt [.typeParameters], one results, one [.identifier], token .leftParen,
        .maybe [parameterList], token .rightParen, opt [.dims], opt [.exceptions],
        one [.block, .empty]] []
      methodDeclaration (.of [.member]) :=
  .modifiers rfl fun modifiers => .typeParameters rfl fun typeParameters =>
    .nextAs chooses_result rfl fun result => .identifier fun name => .expect fun _ _ =>
    .takeParameters fun parameters => .expect fun _ _ => .dims rfl fun dims =>
    .takeExceptions rfl fun exceptions => .nextAs chooses_methodBody rfl fun body =>
    .done rfl (.member _) (by cases result <;> simp)

theorem makes_formalParameter :
    Makes [many modifiers, one NodeSort.types, one [.bareDeclarator]] [] formalParameter
      (.of [.parameter]) := by
  refine .modifiers rfl fun modifiers => .type fun type => .eat_none rfl <|
    .nextAs_each fun node holds => ?_
  obtain ⟨_, among, holds⟩ := Shape.holds_of.mp holds
  obtain rfl := List.mem_singleton.mp among
  cases holds with
  | bareDeclarator name dims => exact ⟨_, rfl, .done rfl (.parameter _) (by simp)⟩

theorem makes_variadicParameter :
    Makes [many modifiers, one NodeSort.types, token .ellipsis, one [.identifier]] []
      formalParameter (.of [.parameter]) :=
  .modifiers rfl fun modifiers => .type fun type => .eat fun _ _ => .identifier fun name =>
    .done rfl (.parameter _) (by simp)

theorem makes_constructorDeclaration :
    Makes [many modifiers, opt [.typeParameters], one [.identifier], token .leftParen,
        .maybe [parameterList], token .rightParen, opt [.exceptions], one [.block]] []
      constructorDeclaration (.of [.member]) :=
  .modifiers rfl fun modifiers => .typeParameters rfl fun typeParameters =>
    .identifier fun name => .expect fun _ _ => .takeParameters fun parameters =>
    .expect fun _ _ => .takeExceptions rfl fun exceptions => .block fun body =>
    .done rfl (.member _) (by simp)

theorem makes_constructorCall :
    Makes [opt [.typeArguments], tokens [.thisWord, .superWord], one [.arguments],
        token .semicolon] []
      constructorCall (.of [.stmt]) :=
  .takeExpr_none rfl <| .typeArguments rfl fun typeArguments => .token fun _ _ =>
    .arguments fun arguments => .done rfl (.stmt _) (by simp)

theorem makes_outerConstructorCall :
    Makes [one expressions, token .dot, opt [.typeArguments], tokens [.superWord],
        one [.arguments], token .semicolon] []
      constructorCall (.of [.stmt]) :=
  .takeExpr_some fun outer => .expect fun _ _ => .typeArguments rfl fun typeArguments =>
    .token fun _ _ => .arguments fun arguments => .done rfl (.stmt _) (by simp)

/-! ### Enumerations -/

theorem makes_enumDeclaration :
    Makes [many modifiers, token .enumWord, one [.identifier], opt [.interfaces], one [.enumBody]] []
      enumDeclaration (.of [.typeDeclaration]) :=
  .modifiers rfl fun modifiers => .expect fun _ _ => .identifier fun name =>
    .takeInterfaces rfl fun interfaces => .nextAs chooses_enumBody rfl fun (constants, body) =>
    .done rfl (.typeDeclaration _) (by simp)

theorem isEnumPart_of {sort : NodeSort} {node : Node} (holds : sort.Holds node)
    (among : sort ∈ [NodeSort.enumConstant, .classBody]) : isEnumPart node := by
  cases holds <;> first | rfl | simp at among

theorem makes_enumBody :
    Makes [token .leftBrace, .maybe [one [.enumConstant], many [.enumConstant]],
        .maybe [token .comma], opt [.classBody], token .rightBrace] []
      enumBody (.of [.enumBody]) := by
  refine .expect fun brace _ => .acceptedItems isEnumPart_of rfl fun nodes matched => ?_
  obtain ⟨rest, matched, same, split⟩ :=
    chooses_enumConstant.split [_, _] chooses_classBody rfl rfl rfl rfl matched
  have few : ((itemsOf rest).filterMap classBody?).length ≤ 1 :=
    Nat.le_trans (List.length_filterMap_le ..) (matched.items_le_one rfl)
  refine .done rfl (.enumBody ..) ?_
  rw [List.nil_append, ← split, same, ← words_getLast? _ few]
  cases ((itemsOf rest).filterMap classBody?).getLast? <;> simp

theorem makes_enumConstant :
    Makes [many [.annotationUse], one [.identifier], opt [.arguments], opt [.classBody]] []
      enumConstant (.of [.enumConstant]) := by
  refine .annotations rfl fun annotations => .identifier fun name =>
    .take chooses_arguments rfl rfl fun arguments => .take chooses_classBody rfl rfl fun body => ?_
  cases arguments with
  | none => exact .done rfl (.enumConstant _) (by simp)
  | some arguments => exact .done rfl (.enumConstant _) (by simp)

theorem makes_enumBodyDeclarations :
    Makes [token .semicolon, many members] [] enumBodyDeclarations (.of [.classBody]) :=
  .expect fun _ _ => .members rfl fun members => .done rfl (.classBody _) (by simp)

end JavaFrontend.Java.Reduction
