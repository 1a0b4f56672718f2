import JavaFrontend.Java.Display
import JavaFrontend.Proofs.Java.TypeBuilding
import JavaFrontend.Proofs.Java.TypeShifts
import JavaFrontend.Proofs.Parse.Angles
import JavaFrontend.Proofs.Place.Unplaced
import JavaFrontend.Proofs.Token.Words

/-!
Types as text. The text of a type without annotations has the tokens of that type, and no shift can
come where its angles close. So it is parsed as the type, whether the parser tells the lexer where
type arguments may close or not (`parse_display`).
-/

namespace JavaFrontend.Java

open Lexeme (isIdentifierStart isIdentifierPart wordKind)

/-! ### Types that can be written -/

/-- The text is one word, of the kind. -/
def IsWord (kind : Kind) (text : String) : Prop := text.toList.head?.any isIdentifierStart ∧
  text.toList.tail.all isIdentifierPart ∧ wordKind text = kind

instance {kind : Kind} {text : String} : Decidable (IsWord kind text) :=
  inferInstanceAs (Decidable (_ ∧ _))

def IsArray : Tree .type → Prop
  | .arrayType _ _ => True
  | _ => False

def IsPrimitive : Tree .type → Prop
  | .primitiveType _ _ _ => True
  | _ => False

/-- Types without annotations, and what they are made of. Dimensions are counted in 32 bits. -/
inductive Writable : {category : Category} → Tree category → Prop where
  | primitiveType {word : Kind} (known : word ∈ primitiveWords) (position : Position) :
    Writable (.primitiveType .nil word position)
  | classType {segments : Row .segment} (some : segments.toList ≠ [])
      (each : ∀ segment ∈ segments.toList, Writable segment) : Writable (.classType segments)
  | arrayType {element : Tree .type} {dims : Nat} (writable : Writable element)
      (apart : ¬ IsArray element) (some : 0 < dims) (few : dims < UInt32.size) :
    Writable (.arrayType element dims)
  | segment {name : Identifier} {arguments : Row .typeArgument}
      (isName : IsWord .identifier name.name)
      (each : ∀ argument ∈ arguments.toList, Writable argument) :
    Writable (.segment .nil name arguments)
  | exactArgument {type : Tree .type} (writable : Writable type) (reference : ¬ IsPrimitive type) :
    Writable (.exactArgument type)
  | anyArgument : Writable .anyArgument
  | upperBounded {bound : Tree .type} (writable : Writable bound)
      (reference : ¬ IsPrimitive bound) : Writable (.upperBounded bound)
  | lowerBounded {bound : Tree .type} (writable : Writable bound)
      (reference : ¬ IsPrimitive bound) : Writable (.lowerBounded bound)

/-! ### The tokens of the text -/

/-- The tokens are the tree, up to places. -/
def Denotes : {category : Category} → Tree category → List Token → Prop
  | .type, type, tokens => ∃ made, made.unplaced = type.unplaced ∧
      Written .type tokens (.type made) ∧ (¬ IsArray type → Written .element tokens (.type made))
  | .segment, segment, tokens => ∃ made : Tree .segment, made.unplaced = segment.unplaced ∧
      Written .segment tokens (.type (.classType [made]))
  | .typeArgument, argument, tokens => ∃ made, made.unplaced = argument.unplaced ∧
      Written .argument tokens (.typeArgument made)
  | _, _, _ => False

/-- The text is that of the tree. -/
structure Writes {category : Category} (tree : Tree category) : Prop where
  opens : Opens tree.display.toList
  lexes : Lexes tree.display.toList (Denotes tree)

theorem displays_eq {category : Category} : (row : Row category) →
    row.displays = row.toList.map Tree.display
  | .nil => rfl
  | .cons tree rest => congrArg (tree.display :: ·) (displays_eq rest)

theorem toList_intercalate_displays {category : Category} (separator : String)
    (row : Row category) : (separator.intercalate row.displays).toList =
      separator.toList.intercalate (row.toList.map fun tree => tree.display.toList) := by
  rw [String.toList_intercalate, displays_eq, List.map_map]
  rfl

theorem unplaced_ofList {category : Category} {made : List (Tree category)} {row : Row category}
    (same : unplaced made = unplaced row.toList) : (Row.ofList made).unplaced = row.unplaced := by
  rw [← ofList_unplaced, same, ← toList_unplaced, Row.ofList_toList]

/-- What stands in front of a separator does not go on behind it. -/
theorem stops_cons {c : Char} {more : List Char} (mark : isIdentifierPart c = false) :
    Stops (c :: more) := by
  rintro d ⟨⟩
  exact mark

/-- Segments with dots between them. -/
theorem lexes_segments (segments : List (Tree .segment)) (some : segments ≠ [])
    (each : ∀ segment ∈ segments, Writes segment) :
    Opens (['.'].intercalate (segments.map (·.display.toList))) ∧
    Lexes (['.'].intercalate (segments.map (·.display.toList))) fun tokens =>
      ∃ made : List (Tree .segment), unplaced made = unplaced segments ∧
        Written .classType tokens (.type (.classType made)) := by
  induction segments with
  | nil => exact absurd rfl some
  | cons segment segments ih =>
    obtain ⟨here, later⟩ := List.forall_mem_cons.mp each
    cases segments with
    | nil =>
      rw [List.map_singleton, List.intercalate_singleton]
      refine ⟨here.opens, here.lexes.imp ?_⟩
      rintro tokens ⟨made, same, written⟩
      exact ⟨[made], congrArg ([·]) same, .last written⟩
    | cons next segments =>
      obtain ⟨opens, lexes⟩ := ih (List.cons_ne_nil _ _) later
      rw [List.map_cons, List.map_cons, List.intercalate_cons_cons, List.append_assoc]
      refine ⟨here.opens.append _, ?_⟩
      have dotted := lexes.mark (by decide : ('.', .dot, ['.']) ∈ Lexeme.marks)
        (opens.parts (by decide))
      refine (here.lexes.append dotted (stops_cons (by decide +kernel))).imp ?_
      rintro _ ⟨front, _, rfl, ⟨made, same, written⟩, dot, back, rfl, isDot, others, more, further⟩
      exact ⟨made :: others, congrArg₂ List.cons same more,
        by simpa using written.dotted dot isDot further⟩

/-- Arguments with commas and blanks between them. -/
theorem lexes_arguments (arguments : List (Tree .typeArgument)) (some : arguments ≠ [])
    (each : ∀ argument ∈ arguments, Writes argument) :
    Opens ([',', ' '].intercalate (arguments.map (·.display.toList))) ∧
    Lexes ([',', ' '].intercalate (arguments.map (·.display.toList))) fun tokens =>
      ∃ made : List (Tree .typeArgument), unplaced made = unplaced arguments ∧
        Written .arguments tokens (.typeArguments made) := by
  induction arguments with
  | nil => exact absurd rfl some
  | cons argument arguments ih =>
    obtain ⟨here, later⟩ := List.forall_mem_cons.mp each
    cases arguments with
    | nil =>
      rw [List.map_singleton, List.intercalate_singleton]
      refine ⟨here.opens, here.lexes.imp ?_⟩
      rintro tokens ⟨made, same, written⟩
      exact ⟨[made], congrArg ([·]) same, .single written⟩
    | cons next arguments =>
      obtain ⟨opens, lexes⟩ := ih (List.cons_ne_nil _ _) later
      rw [List.map_cons, List.map_cons, List.intercalate_cons_cons, List.append_assoc]
      refine ⟨here.opens.append _, ?_⟩
      have several := (lexes.blank opens).mark (by decide : (',', .comma, []) ∈ Lexeme.marks)
        (Stops.parts (stops_cons (by decide +kernel)))
      refine (here.lexes.append several (stops_cons (by decide +kernel))).imp ?_
      rintro _ ⟨front, _, rfl, ⟨made, same, written⟩, comma, back, rfl, isComma, others, more,
        further⟩
      exact ⟨made :: others, congrArg₂ List.cons same more, written.several comma isComma further⟩

/-- Pairs of brackets. -/
theorem lexes_pairs (count : Nat) :
    Lexes (List.replicate count ['[', ']']).flatten fun tokens =>
      tokens.map (·.kind) = pairsOf count := by
  induction count with
  | zero => exact Lexes.nil.imp fun tokens none => by rw [none]; rfl
  | succ count ih =>
    have stops : Stops (List.replicate count ['[', ']']).flatten := by
      cases count with
      | zero => simp [Stops]
      | succ count => exact stops_cons (by decide +kernel)
    have closes := ih.mark (by decide : (']', .rightBracket, []) ∈ Lexeme.marks) stops.parts
    have opens := closes.mark (by decide : ('[', .leftBracket, []) ∈ Lexeme.marks)
      (Stops.parts (stops_cons (by decide +kernel)))
    rw [List.replicate_succ, List.flatten_cons]
    refine opens.imp ?_
    rintro _ ⟨left, _, rfl, isLeft, right, rest, rfl, isRight, pairs⟩
    simp [isLeft, isRight, pairs, pairsOf, List.replicate_succ]

/-- The words of types are such. -/
theorem isWord_text : ∀ word ∈ primitiveWords ++ [Kind.extendsWord, .superWord],
    IsWord word word.text := by
  decide

/-- How a word is spelled. -/
theorem IsWord.spelled {text : String} {kind : Kind} (isWord : IsWord kind text) :
    ∃ c more, text = String.ofList (c :: more) ∧ isIdentifierStart c ∧
      (∀ d ∈ more, isIdentifierPart d) ∧ wordKind text = kind := by
  obtain ⟨start, part, named⟩ := isWord
  cases same : text.toList with
  | nil =>
    rw [same] at start
    cases start
  | cons c more =>
    rw [same] at start part
    exact ⟨c, more, by rw [← same, String.ofList_toList], start, List.all_eq_true.mp part, named⟩

theorem lexes_word {text : String} {kind : Kind} (isWord : IsWord kind text) :
    Opens text.toList ∧ Lexes text.toList fun tokens =>
      ∃ token : Token, tokens = [token] ∧ token.kind = kind ∧ token.text = text := by
  obtain ⟨c, more, rfl, start, part, named⟩ := isWord.spelled
  rw [String.toList_ofList]
  refine ⟨⟨c, rfl, .inl start⟩, (Lexes.word start part).imp ?_⟩
  rintro tokens ⟨token, same, isWord, text⟩
  exact ⟨token, same, isWord.trans named, text⟩

/-- What denotes a type that is not primitive is no primitive type. -/
theorem isReference_of_denotes {type made : Tree .type} {tokens : List Token}
    (same : made.unplaced = type.unplaced) (written : Written .type tokens (.type made))
    (reference : ¬ IsPrimitive type) : IsReference (tokens.map (·.kind)) := by
  intro word known alone
  obtain ⟨token, rest, rfl, rfl, none⟩ := List.map_eq_cons_iff.mp alone
  obtain rfl := List.map_eq_nil_iff.mp none
  have ends : Ends .type [] := by simp [Ends]
  obtain ⟨-, -, ⟨rfl⟩⟩ :=
    written.unique (Written.primitive token known).withoutBrackets ends ends rfl
  cases type with
  | primitiveType => exact reference trivial
  | classType | arrayType => cases same

/-- A wildcard with a bound. -/
theorem lexes_bound {word : Kind} {make : Tree .type → Tree .typeArgument}
    (isBound : Bounds word make) {bound : Tree .type} (writes : Writes bound)
    (reference : ¬ IsPrimitive bound) :
    Lexes ('?' :: ' ' :: (word.text.toList ++ ' ' :: bound.display.toList))
      (Denotes (make bound)) := by
  have known : word ∈ primitiveWords ++ [Kind.extendsWord, .superWord] := by cases isBound <;> decide
  obtain ⟨opens, lexes⟩ := lexes_word (isWord_text word known)
  have behind := lexes.append (writes.lexes.blank writes.opens) (stops_cons (by decide +kernel))
  have whole := (behind.blank (opens.append _)).mark
    (by decide : ('?', .question, []) ∈ Lexeme.marks)
    (Stops.parts (stops_cons (by decide +kernel)))
  refine whole.imp ?_
  rintro _ ⟨question, _, rfl, isQuestion, _, back, rfl, ⟨own, rfl, rfl, -⟩, made, same, written, -⟩
  refine ⟨make made, ?_, .bounded question own isQuestion isBound written
    (isReference_of_denotes same written reference)⟩
  generalize own.kind = word at isBound
  cases isBound with
  | upper => exact congrArg Tree.upperBounded same
  | lower => exact congrArg Tree.lowerBounded same

theorem writes_primitiveType {word : Kind} (known : word ∈ primitiveWords) (position : Position) :
    Writes (.primitiveType .nil word position) := by
  obtain ⟨opens, lexes⟩ := lexes_word (isWord_text word (List.mem_append_left _ known))
  refine ⟨opens, lexes.imp ?_⟩
  rintro _ ⟨token, rfl, rfl, -⟩
  have written := Written.primitive token known
  exact ⟨.primitiveType .nil token.kind token.position, rfl, written.withoutBrackets,
    fun _ => written⟩

theorem writes_classType {segments : Row .segment} (some : segments.toList ≠ [])
    (each : ∀ segment ∈ segments.toList, Writes segment) : Writes (.classType segments) := by
  obtain ⟨opens, lexes⟩ := lexes_segments segments.toList some each
  have text : (Tree.classType segments).display.toList =
      ['.'].intercalate (segments.toList.map (·.display.toList)) :=
    toList_intercalate_displays "." segments
  refine ⟨text ▸ opens, text ▸ lexes.imp ?_⟩
  rintro tokens ⟨made, same, written⟩
  have whole := Written.ofClass written
  exact ⟨.classType made, congrArg Tree.classType (unplaced_ofList same),
    whole.withoutBrackets, fun _ => whole⟩

theorem writes_arrayType {element : Tree .type} {dims : Nat} (writes : Writes element)
    (apart : ¬ IsArray element) (some : 0 < dims) (few : dims < UInt32.size) :
    Writes (.arrayType element dims) := by
  have text : (Tree.arrayType element dims).display.toList =
      element.display.toList ++ (List.replicate dims ['[', ']']).flatten := by
    change (element.display ++ String.join (List.replicate dims "[]")).toList = _
    simp [String.toList_join, List.flatMap_def]
  obtain ⟨more, rfl⟩ := Nat.exists_eq_succ_of_ne_zero some.ne'
  have stops : Stops (List.replicate (more + 1) ['[', ']']).flatten := stops_cons (by decide +kernel)
  refine ⟨text ▸ writes.opens.append _,
    text ▸ (writes.lexes.append (lexes_pairs _) stops).imp ?_⟩
  rintro _ ⟨front, brackets, rfl, ⟨made, same, -, written⟩, pairs⟩
  have whole := (written apart).type brackets _ pairs
  rw [Nat.mod_eq_of_lt few] at whole
  refine ⟨_, ?_, whole, fun other => absurd trivial other⟩
  rw [← withDims_unplaced, same, withDims_unplaced]
  cases element with
  | primitiveType | classType => rfl
  | arrayType => exact absurd trivial apart

/-- The text of a segment: its name, and its arguments between angles if it has any. -/
theorem toList_display_segment {name : Identifier} (argument : Tree .typeArgument)
    (others : Row .typeArgument) :
    (Tree.segment .nil name (.cons argument others)).display.toList =
      name.name.toList ++ '<' :: ([',', ' '].intercalate
        ((Row.cons argument others).toList.map (·.display.toList)) ++ ['>']) := by
  have listed := toList_intercalate_displays ", " (.cons argument others)
  change (name.name ++ "<" ++ ", ".intercalate (Row.cons argument others).displays ++
    ">").toList = _
  simp only [String.toList_append, listed, List.append_assoc]
  rfl

theorem writes_segment {name : Identifier} {arguments : Row .typeArgument}
    (isName : IsWord .identifier name.name) (each : ∀ argument ∈ arguments.toList, Writes argument) :
    Writes (.segment .nil name arguments) := by
  obtain ⟨opens, lexes⟩ := lexes_word isName
  have named {token : Token} {made arguments : Row .typeArgument} (text : token.text = name.name)
      (same : made.unplaced = arguments.unplaced) :
      (Tree.segment .nil ⟨token.text, token.position⟩ made).unplaced =
        (Tree.segment .nil name arguments).unplaced :=
    congrArg₂ (Tree.segment .nil) (congrArg (Identifier.mk · default) text) same
  cases arguments with
  | nil =>
    refine ⟨opens, lexes.imp ?_⟩
    rintro _ ⟨token, rfl, isName, text⟩
    exact ⟨.segment .nil ⟨token.text, token.position⟩ .nil, named text rfl, .bare token isName⟩
  | cons argument others =>
    obtain ⟨opensInside, inside⟩ :=
      lexes_arguments (Row.cons argument others).toList (List.cons_ne_nil _ _) each
    have text := @toList_display_segment name argument others
    have closed := inside.append Lexes.nil.greater (stops_cons (by decide +kernel))
    have angles := closed.mark (by decide : ('<', .less, ['<', '=']) ∈ Lexeme.marks)
      ((opensInside.append _).parts (by decide))
    refine ⟨text ▸ opens.append _,
      text ▸ (lexes.append angles (stops_cons (by decide +kernel))).imp ?_⟩
    rintro _ ⟨_, _, rfl, ⟨token, rfl, isName, text⟩, less, _, rfl, isLess, middle, _, rfl,
      ⟨made, same, written⟩, greater, _, rfl, isGreater, rfl⟩
    exact ⟨.segment .nil ⟨token.text, token.position⟩ made, named text (unplaced_ofList same),
      .angled token less isName isLess written greater isGreater⟩

theorem writes_exactArgument {type : Tree .type} (writes : Writes type)
    (reference : ¬ IsPrimitive type) : Writes (.exactArgument type) := by
  refine ⟨writes.opens, writes.lexes.imp ?_⟩
  rintro tokens ⟨made, same, written, -⟩
  exact ⟨.exactArgument made, congrArg Tree.exactArgument same,
    written.exact (isReference_of_denotes same written reference)⟩

theorem writes_anyArgument : Writes .anyArgument := by
  have whole := Lexes.nil.mark (by decide : ('?', .question, []) ∈ Lexeme.marks)
    (Stops.parts (by simp [Stops]))
  refine ⟨⟨'?', rfl, .inr rfl⟩, whole.imp ?_⟩
  rintro _ ⟨question, _, rfl, isQuestion, rfl⟩
  exact ⟨_, rfl, .any question isQuestion⟩

/-- A wildcard with a bound, as its text stands. -/
theorem writes_bounded {word : Kind} {make : Tree .type → Tree .typeArgument}
    (isBound : Bounds word make) {bound : Tree .type} (writes : Writes bound)
    (reference : ¬ IsPrimitive bound) : Writes (make bound) := by
  have text : (make bound).display.toList =
      '?' :: ' ' :: (word.text.toList ++ ' ' :: bound.display.toList) := by
    cases isBound with
    | upper =>
      change ("? extends " ++ bound.display).toList = _
      simp [Kind.text]
    | lower =>
      change ("? super " ++ bound.display).toList = _
      simp [Kind.text]
  exact ⟨text ▸ ⟨'?', rfl, .inr rfl⟩, text ▸ lexes_bound isBound writes reference⟩

/-- The text of what can be written has its tokens. -/
theorem Writable.writes {category : Category} {tree : Tree category} (writable : Writable tree) :
    Writes tree := by
  induction writable with
  | primitiveType known position => exact writes_primitiveType known position
  | classType some _ ih => exact writes_classType some ih
  | arrayType _ apart some few ih => exact writes_arrayType ih apart some few
  | segment isName _ ih => exact writes_segment isName ih
  | exactArgument _ reference ih => exact writes_exactArgument ih reference
  | anyArgument => exact writes_anyArgument
  | upperBounded _ reference ih => exact writes_bounded .upper ih reference
  | lowerBounded _ reference ih => exact writes_bounded .lower ih reference

/-! ### Parsing it -/

/-- Tokens of types are neither faults nor end marks, and begin no annotation. -/
theorem typeKinds_apart :
    Kind.invalid ∉ typeKinds ∧ Kind.endOfInput ∉ typeKinds ∧ Kind.at ∉ typeKinds := by
  decide

variable {parser : Parser Node} {tokens : List Token} {node : Node} {source : String}

/-- A text without `=` is parsed as a type if its tokens are that type with each `>` alone. -/
theorem parse_of_written {expansion : Expansion} {grammar : JavaFrontend.Grammar}
    {place : Position} (parses : Parses (.rule "Type") expansion grammar parser)
    (built : Grammar.forGoal "Type" = .ok grammar)
    (waiting : (Lexer.ofString source).pending = tokens ++ [Token.endOfInput place])
    (plain : '=' ∉ source.toList) (written : Written .type (unjoinedAll tokens) node) :
    parser.parse (.ofString source) = .ok node := by
  have same : parser.grammar = grammar := by
    obtain ⟨_, rfl⟩ := parses.made
    rfl
  have waits (token : Token) (member : token ∈ tokens) :
      token ∈ (Lexer.ofString source).pending := by simp [waiting, member]
  have other {kind : Kind} (apart : kind ∉ typeKinds) (joint : kind.isRightShift = false)
      {token : Token} (member : token ∈ tokens) : token.kind ≠ kind := by
    rintro rfl
    exact apart (written.kinds token (List.mem_flatMap.mpr ⟨token, member, by simp [joint]⟩))
  have clean (token : Token) (member : token ∈ tokens) : token.error? = none ∧ Fitting token :=
    fitting_of_pending (waits token member) (other typeKinds_apart.1 rfl member)
  have fits (token : Token) (member : token ∈ tokens) := (clean token member).2
  have fit (token : Token) (member : token ∈ unjoinedAll tokens) : Fitting token := by
    rcases mem_unjoinedAll member with ⟨among, -⟩ | ⟨position, rfl⟩
    · exact fits token among
    · exact fitting_of_sound (.plain rfl rfl) rfl
  have whole (token : Token) (member : token ∈ tokens) : token.kind ≠ .endOfInput ∧
      token.error? = none ∧ (token.kind.isRightShift ↔ token.isJoined) :=
    ⟨other typeKinds_apart.2.1 rfl member, (clean token member).1,
      Lexer.shift_iff_isJoined rfl plain token (List.mem_filter.mp (waits token member)).1⟩
  have derived := written.generates built
  rw [← same] at derived
  obtain ⟨root, passed, parsed, begins, builds⟩ := Parser.parse_of_angles parses.ready parses.total
    waiting whole fits fit (fitting_endOfInput place)
    (.inl ⟨Grammar.Viable.of_generates derived, derived⟩)
    fun first token rest split _ kind shift => by
      rw [same]
      refine stuck_of_type parses.isFor rfl shift fun inside => ?_
      obtain ⟨begin, member, isAt⟩ := List.mem_map.mp inside
      have known := written.kinds begin (by simp [split, member])
      exact typeKinds_apart.2.2 (isAt ▸ known)
  rw [same] at builds
  have inside (token : Token) (member : token ∈ unjoinedAll tokens) : token.kind ≠ .endOfInput :=
    fun ended => typeKinds_apart.2.1 (ended ▸ written.kinds token member)
  obtain rfl := parses.passed_of_builds inside begins builds
  rw [parsed, written.of_builds parses fit builds]

/-- Types without annotations are read as they are written, up to places, whether the parser tells
the lexer where type arguments may close or not. -/
theorem parse_display (made : fragmentParser "Type" = .ok parser) (typeContext : Bool)
    {type : Tree .type} (writable : Writable type) :
    ∃ root : Tree .type,
      ({ parser with typeContext } : Parser Node).parse (.ofString type.display) =
        .ok (.type root) ∧ root.unplaced = type.unplaced := by
  unfold fragmentParser at made
  cases built : Grammar.forGoal "Type" with
  | error reason =>
    rw [built] at made
    cases made
  | ok grammar =>
    rw [built] at made
    cases made
    obtain ⟨_, parses⟩ := parses_of_build (.fragment "Type") built typeContext
    obtain ⟨plain, lexed⟩ := writable.writes.lexes
    obtain ⟨told, behind, ⟨root, same, written, -⟩, alone⟩ :=
      lexed (Lexer.ofString type.display).position [] (by simp [Stops])
    obtain ⟨tokens, place, waiting, -⟩ := (Lexer.ofString type.display).pending_eq_append
    refine ⟨root, parse_of_written parses built waiting plain ?_, same⟩
    have shifts : ∀ token ∈ tokens ++ [.endOfInput place],
        (token.kind.isRightShift ↔ token.isJoined) := fun token member =>
      Lexer.shift_iff_isJoined rfl plain token (List.mem_filter.mp (waiting ▸ member)).1
    have split : unjoinedAll tokens ++ [.endOfInput place] = told ++ [.endOfInput behind] := by
      have single := Lexer.pending_setInTypes rfl waiting shifts
      rw [unjoinedAll_append] at single
      have final : (⟨[], behind, true⟩ : Lexer).pending = [.endOfInput behind] :=
        Lexer.pending_end rfl
      rw [List.append_nil, final] at alone
      exact single.symm.trans alone
    rwa [(List.append_inj' split rfl).1]

/-- A class type of one segment. -/
def simpleType (name : String) (arguments : List (Tree .typeArgument)) : Tree .type :=
  .classType [Tree.segment .nil ⟨name, default⟩ arguments]

theorem Writable.simpleType {name : String} {arguments : List (Tree .typeArgument)}
    (isName : IsWord .identifier name) (each : ∀ argument ∈ arguments, Writable argument) :
    Writable (simpleType name arguments) := by
  refine .classType (List.cons_ne_nil _ _) fun segment member => ?_
  rw [Row.toList_ofList, List.mem_singleton] at member
  subst member
  exact .segment isName (by rwa [Row.toList_ofList])

/-- Three angles in a row close a type with a wildcard and an array in it. -/
def nestedType : Tree .type := simpleType "Map" [
  .exactArgument (simpleType "K" []),
  .exactArgument (simpleType "List" [
    .lowerBounded (simpleType "A" [.exactArgument (.arrayType (simpleType "B" []) 2)])])]

theorem parse_display_nested : ∃ parser, fragmentParser "Type" = .ok parser ∧
    nestedType.display = "Map<K, List<? super A<B[][]>>>" ∧ Writable nestedType ∧
    ∀ typeContext, ∃ root : Tree .type,
      ({ parser with typeContext } : Parser Node).parse (.ofString nestedType.display) =
        .ok (.type root) ∧ root.unplaced = nestedType.unplaced := by
  obtain ⟨grammar, built⟩ := Grammar.exists_build (.fragment "Type") (by decide)
  have made : fragmentParser "Type" = .ok (.ofBuilder grammar (Reduction.builder grammar)) := by
    rw [fragmentParser, Grammar.forGoal, built]
    rfl
  have isName : ∀ name ∈ ["Map", "K", "List", "A", "B"], IsWord .identifier name := by
    decide
  have array : Writable (.arrayType (simpleType "B" []) 2) :=
    .arrayType (.simpleType (isName _ (by simp)) (by simp)) id (by decide) (by decide)
  have inner : Writable (simpleType "A" [.exactArgument (.arrayType (simpleType "B" []) 2)]) :=
    .simpleType (isName _ (by simp)) (by simpa using .exactArgument array id)
  have writable : Writable nestedType := by
    refine .simpleType (isName _ (by simp))
      (List.forall_mem_cons.mpr ⟨?_, List.forall_mem_singleton.mpr ?_⟩)
    · exact .exactArgument (.simpleType (isName _ (by simp)) (by simp)) id
    · exact .exactArgument (.simpleType (isName _ (by simp))
        (by simpa using .lowerBounded inner id)) id
  exact ⟨_, made, by decide, writable, fun typeContext =>
    parse_display made typeContext writable⟩

end JavaFrontend.Java
