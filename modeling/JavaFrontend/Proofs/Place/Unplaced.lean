import JavaFrontend.Parse.Error
import JavaFrontend.Reduction.Operands

/-!
Taking the places away. Whatever is made of a text remembers where its parts are written; without
that, only what is written is left. All places become `0:0`, which is none.
-/

namespace JavaFrontend

/-- What has places, and what it is without them. -/
class Placed (α : Type) where
  unplaced : α → α

export Placed (unplaced)

instance : Placed Position := ⟨fun _ => default⟩

instance : Placed Unit := ⟨id⟩

instance : Placed Bool := ⟨id⟩

instance : Placed Nat := ⟨id⟩

instance : Placed String := ⟨id⟩

instance : Placed Kind := ⟨id⟩

instance : Placed ReduceError := ⟨id⟩

section Containers

variable {α β : Type} [Placed α] [Placed β]

instance : Placed (List α) := ⟨List.map unplaced⟩

instance : Placed (Option α) := ⟨Option.map unplaced⟩

instance {ε : Type} [Placed ε] : Placed (Except ε α) := ⟨fun
  | .ok value => .ok (unplaced value)
  | .error reason => .error (unplaced reason)⟩

instance : Placed (α × β) := ⟨Prod.map unplaced unplaced⟩

end Containers

instance : Placed ParseError := ⟨fun
  | .lexical _ reason => .lexical default reason
  | .unexpected _ found expected => .unexpected default found expected
  | .internal reason => .internal reason⟩

instance : Placed Token := ⟨fun token => { token with position := default }⟩

namespace Java

instance : Placed Identifier := ⟨fun identifier => { identifier with position := default }⟩

instance : Placed Literal := ⟨fun literal => { literal with position := default }⟩

instance : Placed QualifiedName := ⟨fun name => ⟨unplaced name.first, unplaced name.rest⟩⟩

mutual

def Tree.unplaced {category : Category} : Tree category → Tree category
  | .primitiveType annotations kind _ => .primitiveType annotations.unplaced kind default
  | .classType segments => .classType segments.unplaced
  | .arrayType element dims => .arrayType element.unplaced dims
  | .segment annotations name arguments =>
    .segment annotations.unplaced (Placed.unplaced name) arguments.unplaced
  | .exactArgument type => .exactArgument type.unplaced
  | .anyArgument => .anyArgument
  | .upperBounded bound => .upperBounded bound.unplaced
  | .lowerBounded bound => .lowerBounded bound.unplaced
  | .typeParameter annotations name bounds =>
    .typeParameter annotations.unplaced (Placed.unplaced name) bounds.unplaced
  | .annotationMarker name _ => .annotationMarker (Placed.unplaced name) default
  | .annotationSingle name value _ =>
    .annotationSingle (Placed.unplaced name) value.unplaced default
  | .annotationPairs name pairs _ => .annotationPairs (Placed.unplaced name) pairs.unplaced default
  | .elementExpr value => .elementExpr value.unplaced
  | .elementArray values => .elementArray values.unplaced
  | .annotationElement value => .annotationElement value.unplaced
  | .elementPair name value => .elementPair (Placed.unplaced name) value.unplaced
  | .wordModifier kind _ => .wordModifier kind default
  | .annotationModifier value => .annotationModifier value.unplaced
  | .literal value => .literal (Placed.unplaced value)
  | .nameExpr name => .nameExpr (Placed.unplaced name)
  | .thisExpr _ => .thisExpr default
  | .qualifiedThis outer => .qualifiedThis (Placed.unplaced outer)
  | .binary left operator right => .binary left.unplaced operator right.unplaced
  | .leading operator operand => .leading operator operand.unplaced
  | .trailing operand operator => .trailing operand.unplaced operator
  | .conditional condition ifTrue ifFalse =>
    .conditional condition.unplaced ifTrue.unplaced ifFalse.unplaced
  | .assignment target operator value => .assignment target.unplaced operator value.unplaced
  | .instanceOf value type => .instanceOf value.unplaced type.unplaced
  | .cast types value => .cast types.unplaced value.unplaced
  | .call name arguments => .call (Placed.unplaced name) arguments.unplaced
  | .callOn receiver typeArguments name arguments =>
    .callOn receiver.unplaced typeArguments.unplaced (Placed.unplaced name) arguments.unplaced
  | .fieldAccess receiver name => .fieldAccess receiver.unplaced (Placed.unplaced name)
  | .arrayAccess array index => .arrayAccess array.unplaced index.unplaced
  | .creation outer typeArguments type diamond arguments body _ =>
    .creation outer.unplaced typeArguments.unplaced type.unplaced diamond arguments.unplaced
      body.unplaced default
  | .newArray element lengths openDims => .newArray element.unplaced lengths.unplaced openDims
  | .newArrayOf element dims values => .newArrayOf element.unplaced dims values.unplaced
  | .arrayInitializer values => .arrayInitializer values.unplaced
  | .lambda parameters body _ => .lambda parameters.unplaced body.unplaced default
  | .blockLambda parameters body _ => .blockLambda parameters.unplaced body.unplaced default
  | .methodReference receiver typeArguments name =>
    .methodReference receiver.unplaced typeArguments.unplaced (Placed.unplaced name)
  | .classLiteral type _ => .classLiteral type.unplaced default
  | .nameReceiver name => .nameReceiver (Placed.unplaced name)
  | .exprReceiver value => .exprReceiver value.unplaced
  | .superReceiver _ => .superReceiver default
  | .qualifiedSuper outer => .qualifiedSuper (Placed.unplaced outer)
  | .typeReceiver type => .typeReceiver type.unplaced
  | .inferredParameters names => .inferredParameters (Placed.unplaced names)
  | .formalParameters parameters => .formalParameters parameters.unplaced
  | .block statements _ => .block statements.unplaced default
  | .blockStmt body => .blockStmt body.unplaced
  | .emptyStmt _ => .emptyStmt default
  | .variablesStmt declared => .variablesStmt declared.unplaced
  | .localType declaration => .localType declaration.unplaced
  | .exprStmt value => .exprStmt value.unplaced
  | .ifThen condition body => .ifThen condition.unplaced body.unplaced
  | .ifThenElse condition body otherwise =>
    .ifThenElse condition.unplaced body.unplaced otherwise.unplaced
  | .whileLoop condition body => .whileLoop condition.unplaced body.unplaced
  | .doLoop body condition => .doLoop body.unplaced condition.unplaced
  | .forLoop start condition update body =>
    .forLoop start.unplaced condition.unplaced update.unplaced body.unplaced
  | .forEach declared iterable body => .forEach declared.unplaced iterable.unplaced body.unplaced
  | .labeled label body => .labeled (Placed.unplaced label) body.unplaced
  | .breakStmt label _ => .breakStmt (Placed.unplaced label) default
  | .continueStmt label _ => .continueStmt (Placed.unplaced label) default
  | .returnStmt value _ => .returnStmt value.unplaced default
  | .throwStmt value => .throwStmt value.unplaced
  | .synchronizedStmt lock body => .synchronizedStmt lock.unplaced body.unplaced
  | .tryStmt resources body catches atLast =>
    .tryStmt resources.unplaced body.unplaced catches.unplaced atLast.unplaced
  | .switchStmt selector groups => .switchStmt selector.unplaced groups.unplaced
  | .assertStmt condition message => .assertStmt condition.unplaced message.unplaced
  | .constructorCall target outer typeArguments arguments _ =>
    .constructorCall target outer.unplaced typeArguments.unplaced arguments.unplaced default
  | .varDeclaration modifiers type declarators =>
    .varDeclaration modifiers.unplaced type.unplaced declarators.unplaced
  | .declarator name dims initial => .declarator (Placed.unplaced name) dims initial.unplaced
  | .noStart => .noStart
  | .exprsStart values => .exprsStart values.unplaced
  | .variablesStart declared => .variablesStart declared.unplaced
  | .resource modifiers type name initial =>
    .resource modifiers.unplaced type.unplaced (Placed.unplaced name) initial.unplaced
  | .catchClause modifiers types name body =>
    .catchClause modifiers.unplaced types.unplaced (Placed.unplaced name) body.unplaced
  | .switchGroup labels statements => .switchGroup labels.unplaced statements.unplaced
  | .caseLabel value => .caseLabel value.unplaced
  | .defaultLabel _ => .defaultLabel default
  | .classDeclaration modifiers name typeParameters superclass interfaces body =>
    .classDeclaration modifiers.unplaced (Placed.unplaced name) typeParameters.unplaced
      superclass.unplaced interfaces.unplaced body.unplaced
  | .interfaceDeclaration modifiers name typeParameters interfaces body =>
    .interfaceDeclaration modifiers.unplaced (Placed.unplaced name) typeParameters.unplaced
      interfaces.unplaced body.unplaced
  | .enumDeclaration modifiers name interfaces constants body =>
    .enumDeclaration modifiers.unplaced (Placed.unplaced name) interfaces.unplaced
      constants.unplaced body.unplaced
  | .plainConstant annotations name body =>
    .plainConstant annotations.unplaced (Placed.unplaced name) body.unplaced
  | .constantWith annotations name arguments body =>
    .constantWith annotations.unplaced (Placed.unplaced name) arguments.unplaced body.unplaced
  | .classBody members _ => .classBody members.unplaced default
  | .field declared => .field declared.unplaced
  | .method modifiers typeParameters result name parameters exceptions body =>
    .method modifiers.unplaced typeParameters.unplaced result.unplaced (Placed.unplaced name)
      parameters.unplaced exceptions.unplaced body.unplaced
  | .constructor modifiers typeParameters name parameters exceptions body =>
    .constructor modifiers.unplaced typeParameters.unplaced (Placed.unplaced name)
      parameters.unplaced exceptions.unplaced body.unplaced
  | .memberType declaration => .memberType declaration.unplaced
  | .initializer isStatic body => .initializer isStatic body.unplaced
  | .parameter modifiers type name isVariadic =>
    .parameter modifiers.unplaced type.unplaced (Placed.unplaced name) isVariadic
  | .packageDeclaration annotations name =>
    .packageDeclaration annotations.unplaced (Placed.unplaced name)
  | .importDeclaration name isStatic onDemand =>
    .importDeclaration (Placed.unplaced name) isStatic onDemand
  | .unit package imports types => .unit package.unplaced imports.unplaced types.unplaced

def Row.unplaced {category : Category} : Row category → Row category
  | .nil => .nil
  | .cons tree rest => .cons tree.unplaced rest.unplaced

def Optional.unplaced {category : Category} : Optional category → Optional category
  | .absent => .absent
  | .present tree => .present tree.unplaced

end

instance {category : Category} : Placed (Tree category) := ⟨Tree.unplaced⟩

instance {category : Category} : Placed (Row category) := ⟨Row.unplaced⟩

instance {category : Category} : Placed (Optional category) := ⟨Optional.unplaced⟩

end Java

mutual

def Node.unplaced : Node → Node
  | .token part => .token (Placed.unplaced part)
  | .identifier part => .identifier (Placed.unplaced part)
  | .literal part => .literal (Placed.unplaced part)
  | .name part => .name (Placed.unplaced part)
  | .type part => .type (Placed.unplaced part)
  | .dims part => .dims (Placed.unplaced part)
  | .typeArguments part => .typeArguments (Placed.unplaced part)
  | .typeArgument part => .typeArgument (Placed.unplaced part)
  | .diamond => .diamond
  | .typeParameters part => .typeParameters (Placed.unplaced part)
  | .typeParameter part => .typeParameter (Placed.unplaced part)
  | .annotationUse part => .annotationUse (Placed.unplaced part)
  | .elementValue part => .elementValue (Placed.unplaced part)
  | .elementPair part => .elementPair (Placed.unplaced part)
  | .modifier part => .modifier (Placed.unplaced part)
  | .expr part => .expr (Placed.unplaced part)
  | .arguments part => .arguments (Placed.unplaced part)
  | .lambdaParameters part => .lambdaParameters (Placed.unplaced part)
  | .stmt part => .stmt (Placed.unplaced part)
  | .block part => .block (Placed.unplaced part)
  | .varDeclaration part => .varDeclaration (Placed.unplaced part)
  | .declarator part => .declarator (Placed.unplaced part)
  | .parameter part => .parameter (Placed.unplaced part)
  | .catchClause part => .catchClause (Placed.unplaced part)
  | .finallyBlock part => .finallyBlock (Placed.unplaced part)
  | .resources part => .resources (Placed.unplaced part)
  | .resource part => .resource (Placed.unplaced part)
  | .switchLabel part => .switchLabel (Placed.unplaced part)
  | .switchGroup part => .switchGroup (Placed.unplaced part)
  | .switchBlock part => .switchBlock (Placed.unplaced part)
  | .superclass part => .superclass (Placed.unplaced part)
  | .interfaces part => .interfaces (Placed.unplaced part)
  | .exceptions part => .exceptions (Placed.unplaced part)
  | .classBody part => .classBody (Placed.unplaced part)
  | .member part => .member (Placed.unplaced part)
  | .enumConstant part => .enumConstant (Placed.unplaced part)
  | .enumBody constants body =>
    .enumBody (Placed.unplaced constants) (Placed.unplaced body)
  | .typeDeclaration part => .typeDeclaration (Placed.unplaced part)
  | .package part => .package (Placed.unplaced part)
  | .importing part => .importing (Placed.unplaced part)
  | .unit part => .unit (Placed.unplaced part)
  | .list rule items => .list rule (Node.unplacedAll items)
  | .empty part => .empty (Placed.unplaced part)
  | .generic rule children => .generic rule (Node.unplacedAll children)

def Node.unplacedAll : List Node → List Node
  | [] => []
  | node :: rest => node.unplaced :: Node.unplacedAll rest

end

instance : Placed Node := ⟨Node.unplaced⟩

instance : Placed Operands := ⟨fun operands => { operands with items := unplaced operands.items }⟩

/-! ### What is taken apart -/

section Containers

variable {α β : Type} [Placed α] [Placed β]

@[simp] theorem unplaced_nil : unplaced ([] : List α) = [] := rfl

@[simp] theorem unplaced_cons (value : α) (values : List α) :
    unplaced (value :: values) = unplaced value :: unplaced values := rfl

@[simp] theorem unplaced_append (front back : List α) :
    unplaced (front ++ back) = unplaced front ++ unplaced back := List.map_append

theorem getD_unplaced (values : Option (List α)) :
    (unplaced values).getD [] = unplaced (values.getD []) := by
  cases values <;> rfl

theorem getLast?_unplaced (values : List α) :
    (unplaced values).getLast? = unplaced values.getLast? := List.getLast?_map

@[simp] theorem unplaced_none : unplaced (none : Option α) = none := rfl

@[simp] theorem unplaced_some (value : α) : unplaced (some value) = some (unplaced value) := rfl

end Containers

namespace Java

variable {category : Category}

theorem ofList_unplaced (trees : List (Tree category)) :
    Row.ofList (unplaced trees) = (Row.ofList trees).unplaced := by
  induction trees with
  | nil => rfl
  | cons tree trees ih => exact congrArg (Row.cons tree.unplaced) ih

theorem toList_unplaced : (row : Row category) → row.unplaced.toList = unplaced row.toList
  | .nil => rfl
  | .cons tree rest => congrArg (tree.unplaced :: ·) (toList_unplaced rest)

theorem ofOption_unplaced (tree : Option (Tree category)) :
    Optional.ofOption (unplaced tree) = (Optional.ofOption tree).unplaced := by
  cases tree <;> rfl

theorem withDims_unplaced (type : TypeExpr) (dims : Nat) :
    type.unplaced.withDims dims = (type.withDims dims).unplaced := by
  cases dims with
  | zero => rfl
  | succ dims => cases type <;> rfl

theorem map_withDims_unplaced (type : Option TypeExpr) (dims : Nat) :
    (unplaced type).map (·.withDims dims) = unplaced (type.map (·.withDims dims)) := by
  cases type with
  | none => rfl
  | some type => exact congrArg some (withDims_unplaced type dims)

end Java

end JavaFrontend
