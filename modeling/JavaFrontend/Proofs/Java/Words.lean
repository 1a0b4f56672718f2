import JavaFrontend.Reduction.Node

/-!
The words of a tree: its identifiers and literals, in the order in which the syntax of each tree
writes its parts. Keywords, operators and punctuation are no words; of them a tree keeps at most
the kind and the place.
-/

namespace JavaFrontend

open Java

/-- What trees keep of the tokens that do not have one fixed spelling. -/
inductive Word where
  | identifier (identifier : Identifier)
  | literal (literal : Literal)
deriving DecidableEq, Repr

/-- The word that a token is: an identifier, or a literal with its decoded value. -/
def Token.word? (token : Token) : Option Word :=
  if token.kind = .identifier then some (.identifier ⟨token.text, token.position⟩)
  else (LiteralValue.ofToken? token).map fun value => .literal ⟨value, token.position⟩

/-- The types that have words in them. -/
class HasWords (α : Type) where
  /-- The words, in the order of the source. -/
  words : α → List Word

export HasWords (words)

section Containers

variable {α β : Type} [HasWords α] [HasWords β]

instance : HasWords (List α) where
  words values := values.flatMap words

instance : HasWords (Option α) where
  words value := value.elim [] words

instance : HasWords (α × β) where
  words pair := words pair.1 ++ words pair.2

@[simp] theorem words_nil : words ([] : List α) = [] := rfl

@[simp] theorem words_cons (value : α) (values : List α) :
    words (value :: values) = words value ++ words values := rfl

@[simp] theorem words_append (values others : List α) :
    words (values ++ others) = words values ++ words others :=
  List.flatMap_append

@[simp] theorem words_none : words (none : Option α) = [] := rfl

@[simp] theorem words_some (value : α) : words (some value) = words value := rfl

@[simp] theorem words_pair (first : α) (second : β) :
    words (first, second) = words first ++ words second := rfl

@[simp] theorem words_flatten (values : List (List α)) : words values.flatten = words values := by
  induction values with
  | nil => rfl
  | cons head tail ih => rw [List.flatten_cons, words_append, ih, words_cons]

@[simp] theorem words_getD_nil (values : Option (List α)) :
    words (values.getD []) = words values := by
  cases values <;> rfl

theorem words_filterMap_id (values : List (Option α)) :
    words (values.filterMap id) = words values := by
  induction values with
  | nil => rfl
  | cons value values ih =>
    cases value with
    | none => exact ih
    | some value => exact congrArg (words value ++ ·) ih

/-- Where there is at most one value, the last is all there is. -/
theorem words_getLast? (values : List α) (few : values.length ≤ 1) :
    words values.getLast? = words values := by
  match values, few with
  | [], _ => rfl
  | [value], _ => simp

end Containers

instance : HasWords Identifier where
  words identifier := [.identifier identifier]

instance : HasWords Literal where
  words literal := [.literal literal]

instance : HasWords QualifiedName where
  words name := words name.parts

/-- Of a token that is no word. -/
instance : HasWords Token where
  words _ := []

instance : HasWords Nat where
  words _ := []

instance : HasWords Unit where
  words _ := []

instance : HasWords Position where
  words _ := []

@[simp] theorem words_identifier (identifier : Identifier) :
    words identifier = [.identifier identifier] := rfl

@[simp] theorem words_literal (literal : Literal) : words literal = [.literal literal] := rfl

@[simp] theorem words_token (token : Token) : words token = [] := rfl

@[simp] theorem words_nat (count : Nat) : words count = [] := rfl

@[simp] theorem words_unit (value : Unit) : words value = [] := rfl

@[simp] theorem words_position (position : Position) : words position = [] := rfl

theorem words_qualifiedName (name : QualifiedName) : words name = words name.parts := rfl

@[simp] theorem words_ofIdentifier (identifier : Identifier) :
    words (QualifiedName.ofIdentifier identifier) = [.identifier identifier] := rfl

@[simp] theorem words_qualifiedName_mk (first : Identifier) (rest : List Identifier) :
    words (QualifiedName.mk first rest) = .identifier first :: words rest := rfl

namespace Java

mutual

/-- The words of a tree. -/
@[simp] def Tree.words {category : Category} : Tree category → List Word
  -- types and annotations
  | .primitiveType annotations _ _ => annotations.words
  | .classType segments => segments.words
  | .arrayType element _ => element.words
  | .segment annotations name arguments =>
    annotations.words ++ .identifier name :: arguments.words
  | .exactArgument type => type.words
  | .anyArgument => []
  | .upperBounded bound | .lowerBounded bound => bound.words
  | .typeParameter annotations name bounds =>
    annotations.words ++ .identifier name :: bounds.words
  | .annotationMarker name _ => HasWords.words name
  | .annotationSingle name value _ => HasWords.words name ++ value.words
  | .annotationPairs name pairs _ => HasWords.words name ++ pairs.words
  | .elementExpr value => value.words
  | .elementArray values => values.words
  | .annotationElement value => value.words
  | .elementPair name value => .identifier name :: value.words
  | .wordModifier _ _ => []
  | .annotationModifier value => value.words
  -- expressions
  | .literal value => [.literal value]
  | .nameExpr name => HasWords.words name
  | .thisExpr _ => []
  | .qualifiedThis outer => HasWords.words outer
  | .binary left _ right => left.words ++ right.words
  | .leading _ operand | .trailing operand _ => operand.words
  | .conditional condition ifTrue ifFalse => condition.words ++ ifTrue.words ++ ifFalse.words
  | .assignment target _ value => target.words ++ value.words
  | .instanceOf value type => value.words ++ type.words
  | .cast types value => types.words ++ value.words
  | .call name arguments => .identifier name :: arguments.words
  | .callOn receiver typeArguments name arguments =>
    receiver.words ++ typeArguments.words ++ .identifier name :: arguments.words
  | .fieldAccess receiver name => receiver.words ++ [.identifier name]
  | .arrayAccess array index => array.words ++ index.words
  | .creation outer typeArguments type _ arguments body _ =>
    outer.words ++ typeArguments.words ++ type.words ++ arguments.words ++ body.words
  | .newArray element lengths _ => element.words ++ lengths.words
  | .newArrayOf element _ values => element.words ++ values.words
  | .arrayInitializer values => values.words
  | .lambda parameters body _ => parameters.words ++ body.words
  | .blockLambda parameters body _ => parameters.words ++ body.words
  | .methodReference receiver typeArguments name =>
    receiver.words ++ typeArguments.words ++ HasWords.words name
  | .classLiteral type _ => type.words
  | .nameReceiver name => HasWords.words name
  | .exprReceiver value => value.words
  | .superReceiver _ => []
  | .qualifiedSuper outer => HasWords.words outer
  | .typeReceiver type => type.words
  | .inferredParameters names => HasWords.words names
  | .formalParameters parameters => parameters.words
  -- statements
  | .block statements _ => statements.words
  | .blockStmt body => body.words
  | .emptyStmt _ => []
  | .variablesStmt declared => declared.words
  | .localType declaration => declaration.words
  | .exprStmt value => value.words
  | .ifThen condition body => condition.words ++ body.words
  | .ifThenElse condition body otherwise => condition.words ++ body.words ++ otherwise.words
  | .whileLoop condition body => condition.words ++ body.words
  | .doLoop body condition => body.words ++ condition.words
  | .forLoop start condition update body =>
    start.words ++ condition.words ++ update.words ++ body.words
  | .forEach declared iterable body => declared.words ++ iterable.words ++ body.words
  | .labeled label body => .identifier label :: body.words
  | .breakStmt label _ | .continueStmt label _ => HasWords.words label
  | .returnStmt value _ => value.words
  | .throwStmt value => value.words
  | .synchronizedStmt lock body => lock.words ++ body.words
  | .tryStmt resources body catches atLast =>
    resources.words ++ body.words ++ catches.words ++ atLast.words
  | .switchStmt selector groups => selector.words ++ groups.words
  | .assertStmt condition message => condition.words ++ message.words
  | .constructorCall _ outer typeArguments arguments _ =>
    outer.words ++ typeArguments.words ++ arguments.words
  | .varDeclaration modifiers type declarators =>
    modifiers.words ++ type.words ++ declarators.words
  | .declarator name _ initial => .identifier name :: initial.words
  | .noStart => []
  | .exprsStart values => values.words
  | .variablesStart declared => declared.words
  | .resource modifiers type name initial =>
    modifiers.words ++ type.words ++ .identifier name :: initial.words
  | .catchClause modifiers types name body =>
    modifiers.words ++ types.words ++ .identifier name :: body.words
  | .switchGroup labels statements => labels.words ++ statements.words
  | .caseLabel value => value.words
  | .defaultLabel _ => []
  -- declarations
  | .classDeclaration modifiers name typeParameters superclass interfaces body =>
    modifiers.words ++ .identifier name :: (typeParameters.words ++ superclass.words ++
      interfaces.words ++ body.words)
  | .interfaceDeclaration modifiers name typeParameters interfaces body =>
    modifiers.words ++ .identifier name :: (typeParameters.words ++ interfaces.words ++
      body.words)
  | .enumDeclaration modifiers name interfaces constants body =>
    modifiers.words ++ .identifier name :: (interfaces.words ++ constants.words ++ body.words)
  | .plainConstant annotations name body => annotations.words ++ .identifier name :: body.words
  | .constantWith annotations name arguments body =>
    annotations.words ++ .identifier name :: (arguments.words ++ body.words)
  | .classBody members _ => members.words
  | .field declared => declared.words
  | .method modifiers typeParameters result name parameters exceptions body =>
    modifiers.words ++ typeParameters.words ++ result.words ++
      .identifier name :: (parameters.words ++ exceptions.words ++ body.words)
  | .constructor modifiers typeParameters name parameters exceptions body =>
    modifiers.words ++ typeParameters.words ++
      .identifier name :: (parameters.words ++ exceptions.words ++ body.words)
  | .memberType declaration => declaration.words
  | .initializer _ body => body.words
  | .parameter modifiers type name _ => modifiers.words ++ type.words ++ [.identifier name]
  -- source files
  | .packageDeclaration annotations name => annotations.words ++ HasWords.words name
  | .importDeclaration name _ _ => HasWords.words name
  | .unit package imports types => package.words ++ imports.words ++ types.words

@[simp] def Row.words {category : Category} : Row category → List Word
  | .nil => []
  | .cons tree rest => tree.words ++ rest.words

@[simp] def Optional.words {category : Category} : Optional category → List Word
  | .absent => []
  | .present tree => tree.words

end

instance {category : Category} : HasWords (Tree category) where
  words := Tree.words

variable {category : Category}

@[simp] theorem words_tree (tree : Tree category) : HasWords.words tree = tree.words := rfl

@[simp] theorem Row.words_ofList (trees : List (Tree category)) :
    (Row.ofList trees).words = HasWords.words trees := by
  induction trees with
  | nil => rfl
  | cons tree trees ih => rw [ofList, Row.words, ih, words_cons, words_tree]

@[simp] theorem Row.words_toList (row : Row category) :
    HasWords.words row.toList = row.words := by
  rw [← Row.words_ofList, Row.ofList_toList]

@[simp] theorem Optional.words_ofOption (tree : Option (Tree category)) :
    (Optional.ofOption tree).words = HasWords.words tree := by
  cases tree <;> rfl

/-- Dimensions have no words. -/
@[simp] theorem Tree.words_withDims (type : TypeExpr) (dims : Nat) :
    (type.withDims dims).words = type.words := by
  cases dims with
  | zero => rfl
  | succ more => cases type <;> rfl

end Java

namespace Node

mutual

/-- The words of a node. -/
def words : Node → List Word
  | .identifier part => [.identifier part]
  | .literal part => [.literal part]
  | .name part => HasWords.words part
  | .type part => part.words
  | .typeArguments parts => HasWords.words parts
  | .typeArgument part => part.words
  | .typeParameters parts => HasWords.words parts
  | .typeParameter part => part.words
  | .annotationUse part => part.words
  | .elementValue part => part.words
  | .elementPair part => part.words
  | .modifier part => part.words
  | .expr part => part.words
  | .arguments parts => HasWords.words parts
  | .lambdaParameters part => part.words
  | .stmt part => part.words
  | .block part => part.words
  | .varDeclaration part => part.words
  | .declarator part => part.words
  | .parameter part => part.words
  | .catchClause part => part.words
  | .finallyBlock part => part.words
  | .resources parts => HasWords.words parts
  | .resource part => part.words
  | .switchLabel part => part.words
  | .switchGroup part => part.words
  | .switchBlock parts => HasWords.words parts
  | .superclass part => part.words
  | .interfaces parts => HasWords.words parts
  | .exceptions parts => HasWords.words parts
  | .classBody part => part.words
  | .member part => part.words
  | .enumConstant part => part.words
  | .enumBody constants body => HasWords.words constants ++ body.words
  | .typeDeclaration part => part.words
  | .package part => part.words
  | .importing part => part.words
  | .unit part => part.words
  | .list _ nodes | .generic _ nodes => wordsOfAll nodes
  | .token _ | .dims _ | .diamond | .empty _ => []

def wordsOfAll : List Node → List Word
  | [] => []
  | node :: rest => node.words ++ wordsOfAll rest

end

end Node

instance : HasWords Node where
  words := Node.words

namespace Node

@[simp] theorem words_node (node : Node) : HasWords.words node = node.words := rfl

@[simp] theorem wordsOfAll_eq (nodes : List Node) : wordsOfAll nodes = HasWords.words nodes := by
  induction nodes with
  | nil => rfl
  | cons node nodes ih => rw [wordsOfAll, ih, words_cons, words_node]

attribute [simp] words

/-- The words of a leaf are the word that its token is. -/
theorem words_ofToken (token : Token) : (ofToken token).words = token.word?.toList := by
  unfold ofToken Token.word?
  split
  · simp
  · cases LiteralValue.ofToken? token <;> simp

/-- A node and its items have the same words. -/
theorem words_items (node : Node) : HasWords.words node.items = node.words := by
  cases node <;> simp [items]

end Node

end JavaFrontend
