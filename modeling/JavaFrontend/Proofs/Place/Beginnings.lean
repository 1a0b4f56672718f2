import JavaFrontend.Java.Reduction
import JavaFrontend.Proofs.Reduction.Leads

/-!
Where reductions say that what they make is. An expression or a type is where the first operand of
its rule is, unless something in front of its place is left out of it: an operator, the word `new`
of an array, the outer part of a creation, annotations or a parenthesis (`Headed`).
-/

namespace JavaFrontend

open Java Java.Reduction OperandM

/-! ### Trees that begin at their place -/

namespace Java

mutual

/-- Whether a type, a receiver or an expression begins where it is said to be, if it is in no
parentheses: with no operator, no annotation, no outer part and no `new` of an array in front. -/
def Tree.begins {category : Category} : Tree category → Bool
  -- types
  | .primitiveType .nil _ _ => true
  | .classType segments => segments.begins
  | .segment .nil _ _ => true
  | .arrayType element _ => element.begins
  -- receivers
  | .nameReceiver _ | .qualifiedSuper _ | .superReceiver _ => true
  | .exprReceiver value => value.begins
  | .typeReceiver type => type.begins
  -- expressions
  | .literal _ | .nameExpr _ | .qualifiedThis _ | .thisExpr _ => true
  | .classLiteral type _ => type.begins
  | .binary left _ _ => left.begins
  | .trailing operand _ => operand.begins
  | .conditional condition _ _ => condition.begins
  | .assignment target _ _ => target.begins
  | .instanceOf value _ => value.begins
  | .call _ _ => true
  | .callOn receiver _ _ _ | .fieldAccess receiver _ | .methodReference receiver _ _ =>
    receiver.begins
  | .arrayAccess array _ => array.begins
  | .creation .absent _ _ _ _ _ _ => true
  | .lambda _ _ _ | .blockLambda _ _ _ => true
  | _ => false

def Row.begins {category : Category} : Row category → Bool
  | .nil => false
  | .cons tree _ => tree.begins

def Optional.begins {category : Category} : Optional category → Bool
  | .absent => true
  | .present tree => tree.begins

end

theorem begins_withDims (type : TypeExpr) (dims : Nat) :
    (type.withDims dims).begins = type.begins := by
  cases dims with
  | zero => rfl
  | succ dims => cases type <;> rfl

theorem place_withDims (type : TypeExpr) (dims : Nat) :
    (type.withDims dims).place = type.place := by
  cases dims with
  | zero => rfl
  | succ dims => cases type <;> rfl

end Java

namespace Node

/-- Where a node is said to be, if it is a token, a type, an expression, or has a name of its
own. -/
def place? : Node → Option Position
  | .token part => some part.position
  | .type part => some part.place
  | .lambdaParameters parameters => firstParameter? parameters
  | .parameter (.parameter _ _ own _) => some own.position
  | .declarator (.declarator own _ _) => some own.position
  | node => node.expr?.map Tree.place

/-- Whether it begins there. -/
def begins : Node → Bool
  | .type part => part.begins
  | node => node.expr?.elim true Tree.begins

/-- Whether it is a parenthesis, or parameters with nothing but parentheses. -/
def opens : Node → Bool
  | .token part => part.kind == .leftParen
  | .lambdaParameters parameters => (firstParameter? parameters).isNone
  | _ => false

/-- The node is at one of the places, if anywhere. -/
def Placed (Among : Position → Prop) (node : Node) : Prop := ∀ place ∈ node.place?, Among place

/-- All items are. -/
def AllPlaced (Among : Position → Prop) (node : Node) : Prop :=
  ∀ item ∈ node.items, item.Placed Among

end Node

variable {Among : Position → Prop} {head node : Node} {nodes : List Node} {name : String}

theorem place?_of_expr? {tree : Expr} (same : node.expr? = some tree) :
    node.place? = some tree.place ∧ node.begins = tree.begins ∧ node.opens = false := by
  cases node <;> cases same <;> exact ⟨rfl, rfl, rfl⟩

/-! ### What is asked for is at one of the places -/

theorem placed_of_all (all : node.AllPlaced Among) : node.Placed Among := by
  cases node with
  | list => exact fun place none => absurd none (by simp [Node.place?, Node.expr?])
  | _ => exact all _ (List.mem_singleton_self _)

theorem placed_of_expr? {tree : Expr} (same : node.expr? = some tree)
    (all : node.AllPlaced Among) : Among tree.place :=
  placed_of_all all _ (place?_of_expr? same).1

theorem placed_of_type? {type : TypeExpr} (same : type? node = some type)
    (all : node.AllPlaced Among) : Among type.place := by
  cases node <;> cases same
  exact placed_of_all all _ rfl

theorem placed_of_tokenOf? {token : Token} {kind : Kind} (same : tokenOf? kind node = some token)
    (all : node.AllPlaced Among) : Among token.position := by
  cases node with
  | token part =>
    obtain rfl : part = token := Option.some.inj (Option.filter_eq_some_iff.mp same).1
    exact placed_of_all all _ rfl
  | _ => cases same

theorem placed_of_identifier? {part : Identifier} (same : identifier? node = some part)
    (all : node.AllPlaced Among) : Among part.position := by
  cases node <;> cases same
  exact placed_of_all all _ rfl

theorem yields_expr : Yields (Node.AllPlaced Among) (fun tree => Among tree.place) expr :=
  .nextAs _ fun same all => placed_of_expr? same all

theorem yields_type : Yields (Node.AllPlaced Among) (fun type => Among type.place) type :=
  .nextAs _ fun same all => placed_of_type? same all

theorem yields_identifier :
    Yields (Node.AllPlaced Among) (fun part => Among part.position) identifier :=
  .nextAs _ fun same all => placed_of_identifier? same all

theorem yields_expect (kind : Kind) :
    Yields (Node.AllPlaced Among) (fun token => Among token.position) (expect kind) :=
  .nextAs _ fun same all => placed_of_tokenOf? same all

theorem yields_dims : Yields (Node.AllPlaced Among) (fun _ => True) dims :=
  .bind .tries fun _ _ => .pure trivial

theorem yields_typeArguments : Yields (Node.AllPlaced Among) (fun _ => True) typeArguments :=
  .bind .tries fun _ _ => .pure trivial

/-! ### What a reduction makes -/

/-- The node is where the first operand is and begins as that does, or else at one of the places,
and then it begins with more, unless it begins with a parenthesis. -/
structure Headed (Among : Position → Prop) (head node : Node) : Prop where
  opens : node.opens = true → head.opens = true
  placed : node.place? = head.place? ∧ node.begins = head.begins ∨
    node.Placed Among ∧ (node.begins = true → head.opens = true)

/-- An expression that is where its first part is. -/
theorem headed_of_place {tree : Expr} (place : head.place? = some tree.place)
    (begins : head.begins = tree.begins) : Headed Among head (.expr tree) where
  opens opens := by cases opens
  placed := .inl ⟨place.symm, begins.symm⟩

theorem headed_of_expr? {tree inner : Expr} (same : head.expr? = some inner)
    (place : tree.place = inner.place) (begins : tree.begins = inner.begins) :
    Headed Among head (.expr tree) := by
  obtain ⟨isPlace, isBegins, -⟩ := place?_of_expr? same
  exact headed_of_place (isPlace.trans (congrArg some place.symm)) (isBegins.trans begins.symm)

/-- An expression that is where a later operand is. -/
theorem headed_past {tree : Expr} (among : Among tree.place) (further : tree.begins = false) :
    Headed Among head (.expr tree) where
  opens opens := by cases opens
  placed := .inr ⟨fun _ same => Option.some.inj same ▸ among, fun begins => by
    cases further.symm.trans begins⟩

theorem Headed.mono {Weaker : Position → Prop} (headed : Headed Among head node)
    (weaker : ∀ place, Among place → Weaker place) : Headed Weaker head node :=
  ⟨headed.opens, headed.placed.imp_right (And.imp_left fun placed place isPlace =>
    weaker place (placed place isPlace))⟩

theorem Headed.isPlaced (headed : Headed Among head node) (all : head.AllPlaced Among) :
    node.Placed Among := by
  rcases headed.placed with ⟨same, -⟩ | ⟨placed, -⟩
  · exact fun place isPlace => placed_of_all all place (same ▸ isPlace)
  · exact placed

/-! ### Reductions for expressions -/

theorem headed_first : Leads head (Node.AllPlaced Among) (Headed Among head) first :=
  Leads.next.mono fun _ same => ⟨same ▸ id, .inl (by simp [same])⟩

theorem headed_assignment : Leads head (Node.AllPlaced Among) (Headed Among head) assignment :=
  Leads.nextAs.bind fun _ same => .bind .asks fun _ _ => .bind .asks fun _ _ =>
    .pure (headed_of_expr? same rfl rfl)

theorem headed_conditional : Leads head (Node.AllPlaced Among) (Headed Among head) conditional :=
  Leads.nextAs.bind fun _ same => .bind .asks fun _ _ => .bind .asks fun _ _ =>
    .bind .asks fun _ _ => .bind .asks fun _ _ => .pure (headed_of_expr? same rfl rfl)

theorem headed_binary : Leads head (Node.AllPlaced Among) (Headed Among head) binary :=
  Leads.nextAs.bind fun _ same => .bind .asks fun _ _ =>
    .ite (.bind .asks fun _ _ => .pure (headed_of_expr? same rfl rfl))
      (.bind .asks fun _ _ => .pure (headed_of_expr? same rfl rfl))

theorem headed_leading : Leads head (Node.AllPlaced Among) (Headed Among head) leading :=
  Leads.nextAs.bind fun _ _ => yields_expr.bind fun _ among => .pure (headed_past among rfl)

theorem headed_trailing : Leads head (Node.AllPlaced Among) (Headed Among head) trailing :=
  Leads.nextAs.bind fun _ same => .bind .asks fun _ _ => .pure (headed_of_expr? same rfl rfl)

theorem headed_cast : Leads head (Node.AllPlaced Among) (Headed Among head) cast :=
  Leads.nextAs.bind fun _ _ => yields_type.bind fun _ among => .bind .takeUntil fun _ _ =>
    .bind .all fun _ _ => .bind .asks fun _ _ => .bind .asks fun _ _ =>
      .pure (headed_past among rfl)

theorem headed_arrayAccess : Leads head (Node.AllPlaced Among) (Headed Among head) arrayAccess :=
  Leads.nextAs.bind fun _ same => .bind .asks fun _ _ => .bind .asks fun _ _ =>
    .pure (headed_of_expr? same rfl rfl)

/-- What is selected from is where it begins. -/
theorem leads_receiver (separator : Kind) : Leads head (Node.AllPlaced Among)
    (fun receiver => head.place? = some receiver.place ∧ head.begins = receiver.begins)
    (receiver separator) := by
  refine Leads.next.bind fun node same => ?_
  subst same
  extract_lets further
  have rest (receiver : Tree .receiver) (place : node.place? = some receiver.place)
      (begins : node.begins = receiver.begins) : Yields (Node.AllPlaced Among)
        (fun receiver => node.place? = some receiver.place ∧ node.begins = receiver.begins)
        (further receiver) :=
    .bind .asks fun _ _ => .pure ⟨place, begins⟩
  have other : Yields (Node.AllPlaced Among)
      (fun receiver => node.place? = some receiver.place ∧ node.begins = receiver.begins)
      (ofNode "receiver" Node.expr? node >>= fun value => further (.exprReceiver value)) :=
    (Yields.ofNode _ fun _ same => same).bind fun value same =>
      rest _ (place?_of_expr? same).1 (place?_of_expr? same).2.1
  cases node with
  | name part =>
    exact .bind (.look _) fun _ _ => .bind (.look _) fun _ _ =>
      .ite (.bind .asks fun _ _ => .bind .asks fun _ _ => rest _ rfl rfl) (rest _ rfl rfl)
  | type part => exact rest _ rfl rfl
  | token part =>
    dsimp only
    cases found : tokenOf? .superWord (.token part) with
    | some super =>
      obtain rfl : part = super :=
        Option.some.inj (Option.filter_eq_some_iff.mp found).1
      exact rest _ rfl rfl
    | none => exact other
  | _ => exact other

theorem headed_fieldAccess : Leads head (Node.AllPlaced Among) (Headed Among head) fieldAccess :=
  (leads_receiver _).bind fun _ ⟨place, begins⟩ => .bind .asks fun _ _ =>
    .pure (headed_of_place place begins)

theorem position_of_qualifier {name qualifier : QualifiedName}
    (same : name.qualifier? = some qualifier) : qualifier.position = name.position := by
  unfold QualifiedName.qualifier? at same
  split at same <;> cases same
  rfl

theorem position_last {name : QualifiedName} (none : name.qualifier? = none) :
    name.last.position = name.position := by
  obtain ⟨first, rest⟩ := name
  cases rest with
  | nil => rfl
  | cons => cases none

theorem leads_name : Leads head (Node.AllPlaced Among)
    (fun part : QualifiedName => head.place? = some part.position ∧ head.begins = true)
    OperandM.name :=
  Leads.nextAs.mono fun _ same => by cases head <;> cases same <;> exact ⟨rfl, rfl⟩

theorem headed_methodInvocation :
    Leads head (Node.AllPlaced Among) (Headed Among head) methodInvocation := by
  refine Leads.looks fun count => .ite ?_ ?_
  · refine leads_name.bind fun name ⟨place, begins⟩ => .bind .asks fun arguments _ => ?_
    cases qualified : name.qualifier? with
    | none =>
      exact .pure (headed_of_place
        (place.trans (congrArg some (position_last qualified).symm)) begins)
    | some qualifier =>
      exact .pure (headed_of_place
        (place.trans (congrArg some (position_of_qualifier qualified).symm)) begins)
  · exact (leads_receiver _).bind fun _ ⟨place, begins⟩ => yields_typeArguments.bind fun _ _ =>
      .bind .asks fun _ _ => .bind .asks fun _ _ => .pure (headed_of_place place begins)

theorem headed_methodReference :
    Leads head (Node.AllPlaced Among) (Headed Among head) methodReference :=
  (leads_receiver _).bind fun _ ⟨place, begins⟩ => yields_typeArguments.bind fun _ _ =>
    .bind .tries fun _ _ => .ite (.pure (headed_of_place place begins))
      (.bind .asks fun _ _ => .pure (headed_of_place place begins))

theorem begins_namedType (name : QualifiedName) : (namedType name).begins = true := rfl

theorem headed_classLiteral :
    Leads head (Node.AllPlaced Among) (Headed Among head) classLiteral := by
  refine Leads.nextAs.bind fun (type, position) same => .bind yields_dims fun dims _ => .pure ?_
  cases head <;> cases same
  · exact headed_of_place rfl rfl
  · exact headed_of_place rfl ((begins_withDims _ _).trans (begins_namedType _)).symm
  · exact headed_of_place rfl (begins_withDims _ _).symm

theorem headed_qualifiedCreation :
    Leads head (Node.AllPlaced Among) (Headed Among head) qualifiedCreation := by
  refine Leads.nextAs.bind fun outer _ => .bind .asks fun _ _ => yields_expr.bind
    fun created among => ?_
  cases created with
  | creation => exact .pure (headed_past among rfl)
  | _ => exact .mismatch _ _

theorem place?_of_tokenOf? {kind : Kind} {token : Token} (same : tokenOf? kind head = some token) :
    head.place? = some token.position ∧ head.begins = true := by
  cases head with
  | token part =>
    obtain rfl : part = token := Option.some.inj (Option.filter_eq_some_iff.mp same).1
    exact ⟨rfl, rfl⟩
  | _ => cases same

theorem headed_creation : Leads head (Node.AllPlaced Among) (Headed Among head) creation := by
  refine Leads.nextAs.bind fun word same => yields_typeArguments.bind fun _ _ =>
    .bind .asks fun _ _ => .bind .tries fun _ _ => .bind .asks fun _ _ => .bind .tries fun _ _ =>
      .pure ?_
  obtain ⟨place, begins⟩ := place?_of_tokenOf? same
  exact headed_of_place place begins

theorem headed_arrayCreation :
    Leads head (Node.AllPlaced Among) (Headed Among head) arrayCreation := by
  refine Leads.nextAs.bind fun _ _ => yields_type.bind fun element among => .bind .next
    fun node _ => ?_
  have byLengths : Yields (Node.AllPlaced Among) (Headed Among head) (do
      let lengths ← exprsOf node
      return Node.expr (.newArray element lengths (← dims))) :=
    .bind .all fun _ _ => .bind yields_dims fun _ _ => .pure (headed_past among rfl)
  cases node with
  | dims =>
    refine .bind .asks fun values _ => ?_
    cases values with
    | arrayInitializer => exact .pure (headed_past among rfl)
    | _ => exact .mismatch _ _
  | _ => exact byLengths

theorem headed_lambda : Leads head (Node.AllPlaced Among) (Headed Among head) lambda := by
  refine Leads.nextAs.bind fun parameters same => (yields_expect _).bind fun arrow among => ?_
  cases head <;> cases same
  have whole {tree : Expr} (place : tree.place =
      (firstParameter? parameters).getD arrow.position) (begins : tree.begins = true) :
      Headed Among (.lambdaParameters parameters) (.expr tree) := by
    cases own : firstParameter? parameters with
    | some position =>
      rw [own] at place
      exact headed_of_place (own.trans (congrArg some place.symm)) begins.symm
    | none =>
      rw [own] at place
      refine ⟨(nomatch ·), .inr ⟨fun _ same => ?_, fun _ => by simp [Node.opens, own]⟩⟩
      rw [← Option.some.inj same, place]
      exact among
  refine .bind .next fun node _ => ?_
  cases node with
  | block => exact .pure (whole rfl rfl)
  | _ => exact (Yields.ofNode _ fun _ same => same).bind fun _ _ => .pure (whole rfl rfl)

theorem headed_primary : Leads head (Node.AllPlaced Among) (Headed Among head) primary := by
  refine Leads.took (fun word same => .pure ?_) fun _ => ?_
  · obtain ⟨place, begins⟩ := place?_of_tokenOf? same
    exact headed_of_place place begins
  refine Leads.took (fun paren same => ?_) fun _ => ?_
  · have opens : head.opens = true := by
      cases head with
      | token part =>
        obtain ⟨same, isParen⟩ := Option.filter_eq_some_iff.mp same
        exact Option.some.inj same ▸ isParen
      | _ => cases same
    exact yields_expr.bind fun _ among => .pure
      ⟨(nomatch ·), .inr ⟨fun _ same => Option.some.inj same ▸ among, fun _ => opens⟩⟩
  · exact leads_name.bind fun _ ⟨place, begins⟩ => .pure (headed_of_place place begins)

/-! ### Reductions for names and types -/

theorem headed_dottedName : Leads head (Node.AllPlaced Among) (Headed Among head) dottedName := by
  refine Leads.nextAs.bind fun part same => .bind .items fun _ _ => .bind .all fun _ _ => .pure ?_
  cases head <;> cases same
  exact ⟨(nomatch ·), .inl ⟨rfl, rfl⟩⟩

/-- A type that is where the first operand is. -/
theorem headed_of_type {type : TypeExpr} (place : head.place? = some type.place)
    (begins : head.begins = type.begins) : Headed Among head (.type type) where
  opens opens := by cases opens
  placed := .inl ⟨place.symm, begins.symm⟩

/-- A type that is where a later operand is. -/
theorem headed_behind {type : TypeExpr} (among : Among type.place) (further : type.begins = false) :
    Headed Among head (.type type) where
  opens opens := by cases opens
  placed := .inr ⟨fun _ same => Option.some.inj same ▸ among, fun begins => by
    cases further.symm.trans begins⟩

theorem place?_of_type? {type : TypeExpr} (same : type? head = some type) :
    head.place? = some type.place ∧ head.begins = type.begins := by
  cases head <;> cases same
  exact ⟨rfl, rfl⟩

theorem headed_arrayType : Leads head (Node.AllPlaced Among) (Headed Among head) arrayType := by
  refine Leads.nextAs.bind fun element same => .bind yields_dims fun dims _ => .pure ?_
  obtain ⟨place, begins⟩ := place?_of_type? same
  exact headed_of_type (place.trans (congrArg some (place_withDims _ _).symm))
    (begins.trans (begins_withDims _ _).symm)

/-- The node is no type but a primitive one. -/
def IsPlain (node : Node) : Prop :=
  ∀ type, type? node = some type → ∃ annotations kind position,
    type = .primitiveType annotations kind position

/-- With annotations in front, the type is where its word is. -/
theorem headed_primitiveType (some : head.items ≠ []) (other : type? head = none) :
    Leads head (fun node => node.AllPlaced Among ∧ IsPlain node) (Headed Among head)
      primitiveType := by
  refine Leads.peeks ?_
  cases isToken : token? head with
  | some token =>
    cases head <;> cases isToken
    exact Leads.next.bind fun _ _ => .pure (headed_of_type rfl rfl)
  | none =>
    rw [Option.bind_some, isToken]
    dsimp only
    refine (Leads.takeUntil (by simp [other])).bind fun nodes ⟨others, same⟩ => ?_
    have annotated : nodes.flatMap Node.items ≠ [] := by
      rw [same, List.flatMap_cons]
      exact List.append_ne_nil_of_left_ne_nil some _
    refine (Yields.some_of_all annotated).bind fun annotations written => ?_
    have plain : Yields (fun node => node.AllPlaced Among ∧ IsPlain node)
        (fun type => Among type.place ∧ ∃ annotations kind position,
          type = .primitiveType annotations kind position) type :=
      .nextAs _ fun same ⟨all, plain⟩ => ⟨placed_of_type? same all, plain _ same⟩
    refine plain.bind fun _ ⟨among, more, kind, position, same⟩ => ?_
    subst same
    refine .pure (headed_behind among ?_)
    cases annotations with
    | nil => exact absurd rfl written
    | cons => rfl

theorem headed_simpleClassType :
    Leads head (Node.AllPlaced Among) (Headed Among head) simpleClassType := by
  refine Leads.repeated (fun annotations written => yields_identifier.bind fun name among =>
    yields_typeArguments.bind fun _ _ => .pure (headed_behind among ?_)) fun _ => ?_
  · cases annotations with
    | nil => exact absurd rfl written
    | cons => rfl
  · refine Leads.nextAs.bind fun name same => yields_typeArguments.bind fun _ _ =>
      .pure ?_
    cases head <;> cases same
    exact headed_of_type rfl rfl

/-- A class type is where the first of its parts is. -/
theorem headed_classType {segment : Tree .segment} :
    Leads (.type (.classType (.cons segment .nil))) (Node.AllPlaced Among)
      (Headed Among (.type (.classType (.cons segment .nil)))) classType := by
  unfold classType types
  rw [bind_assoc]
  refine (Leads.items rfl).bind fun items ⟨others, same⟩ => ?_
  subst same
  refine Yields.head_of_all.bind fun types ⟨type, rest, isTypes, isType⟩ => ?_
  subst isTypes
  cases isType
  refine Yields.head_of_all.bind fun segments ⟨first, rest, isSegments, isFirst⟩ => ?_
  subst isSegments
  cases isFirst
  exact .pure (headed_of_type rfl rfl)

/-! ### Reductions for other parts -/

theorem allPlaced_of_placed (placed : node.Placed Among) (single : node.items = [node]) :
    node.AllPlaced Among := by
  intro item member
  rw [single] at member
  exact List.mem_singleton.mp member ▸ placed

/-- A node of one tree that is at one of the places, if anywhere. -/
theorem allPlaced_of_eq {place : Position} (among : Among place) (own : node.place? = some place)
    (single : node.items = [node]) : node.AllPlaced Among :=
  allPlaced_of_placed (fun _ same => Option.some.inj (own.symm.trans same) ▸ among) single

theorem placed_first : Yields (Node.AllPlaced Among) (Node.AllPlaced Among) first := .next

theorem placed_list : Yields (Node.AllPlaced Among) (Node.AllPlaced Among) list :=
  .bind (.look _) fun _ _ => Yields.items.bind fun _ all => .pure all

theorem placed_wildcard : Yields (Node.AllPlaced Among) (Node.AllPlaced Among) wildcard := by
  have bare (argument : Tree .typeArgument) : (Node.typeArgument argument).AllPlaced Among :=
    allPlaced_of_placed (fun _ none => by cases none) rfl
  exact .bind .asks fun _ _ => .bind .tries fun _ _ =>
    .ite (.bind .asks fun _ _ => .pure (bare _)) (.bind .tries fun _ _ =>
      .ite (.bind .asks fun _ _ => .pure (bare _)) (.pure (bare _)))

theorem placed_additionalBound :
    Yields (Node.AllPlaced Among) (Node.AllPlaced Among) additionalBound :=
  .bind .asks fun _ _ => yields_type.bind fun _ among => .pure (allPlaced_of_eq among rfl rfl)

theorem placed_elementArray :
    Yields (Node.AllPlaced Among) (Node.AllPlaced Among) elementArray :=
  Yields.items.bind fun _ _ => .bind .all fun _ _ =>
    .pure (allPlaced_of_placed (fun _ none => by cases none) rfl)

theorem yields_declarator (expected : String) : Yields (Node.AllPlaced Among)
    (fun part => (Node.declarator part).Placed Among) (nextAs expected declarator?) :=
  .nextAs _ fun {node _} same all => by
    cases node <;> cases same
    exact placed_of_all all

theorem placed_variableDeclarator :
    Yields (Node.AllPlaced Among) (Node.AllPlaced Among) variableDeclarator := by
  refine (yields_declarator _).bind fun part among => ?_
  cases part
  exact .bind .asks fun _ _ => .bind .asks fun _ _ =>
    .pure (allPlaced_of_eq (among _ rfl) rfl rfl)

theorem placed_variableDeclaratorId :
    Yields (Node.AllPlaced Among) (Node.AllPlaced Among) variableDeclaratorId :=
  yields_identifier.bind fun _ among => yields_dims.bind fun _ _ =>
    .pure (allPlaced_of_eq among rfl rfl)

theorem placed_formalParameter :
    Yields (Node.AllPlaced Among) (Node.AllPlaced Among) formalParameter := by
  refine .bind .repeats fun _ _ => .bind .asks fun _ _ => .bind .tries fun _ _ => .ite ?_ ?_
  · exact yields_identifier.bind fun _ among => .pure (allPlaced_of_eq among rfl rfl)
  · refine (yields_declarator _).bind fun part among => ?_
    cases part
    exact .pure (allPlaced_of_eq (among _ rfl) rfl rfl)

theorem placed_dimensionLength :
    Yields (Node.AllPlaced Among) (Node.AllPlaced Among) dimensionLength :=
  .bind .asks fun _ _ => yields_expr.bind fun _ among => .pure (allPlaced_of_eq among rfl rfl)

theorem placed_arrayInitializer (bare : Among default) :
    Yields (Node.AllPlaced Among) (Node.AllPlaced Among) arrayInitializer := by
  have exprs : Yields (Node.AllPlaced Among) (fun values => ∀ value ∈ values, Among value.place)
      exprs :=
    Yields.items.bind fun items all => .allAs _ fun item member value same =>
      all item member _ (place?_of_expr? same).1
  refine exprs.bind fun values among => .pure (allPlaced_of_eq ?_ rfl rfl)
  cases values with
  | nil => exact bare
  | cons first => exact among first List.mem_cons_self

theorem placed_lambdaParameters :
    Yields (Node.AllPlaced Among) (Node.AllPlaced Among) lambdaParameters := by
  refine Yields.rest.bind fun nodes all => ?_
  have parts : Yields (Node.AllPlaced Among) (fun parts => ∀ part ∈ parts, part.Placed Among)
      (allAs "lambda parameter" (Option.guard isLambdaPart) (nodes.flatMap Node.items)) :=
    .allAs _ fun item member part same => by
      obtain ⟨rfl, -⟩ := Option.guard_eq_some_iff.mp same
      obtain ⟨node, among, inside⟩ := List.mem_flatMap.mp member
      exact all node among _ inside
  refine parts.bind fun parts placed => ?_
  split
  · refine .pure (allPlaced_of_placed (fun place first => ?_) rfl)
    obtain ⟨name, named, rfl⟩ := Option.map_eq_some_iff.mp first
    obtain ⟨part, among, same⟩ := List.mem_filterMap.mp (List.mem_of_mem_head? named)
    cases part <;> cases same
    exact placed _ among _ rfl
  · refine .pure (allPlaced_of_placed (fun place first => ?_) rfl)
    cases parameters : parts.filterMap parameter? with
    | nil =>
      rw [parameters] at first
      cases first
    | cons parameter others =>
      rw [parameters] at first
      have member : parameter ∈ parts.filterMap parameter? := parameters ▸ List.mem_cons_self
      obtain ⟨part, among, same⟩ := List.mem_filterMap.mp member
      cases part <;> cases same
      refine placed _ among _ ?_
      cases parameter
      exact first

end JavaFrontend
