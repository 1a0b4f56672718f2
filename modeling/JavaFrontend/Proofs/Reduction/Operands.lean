import JavaFrontend.Proofs.Reduction.Makes

/-!
The rules of the logic for the operands that many reductions ask for: tokens that may be missing,
names, expressions, types, blocks, modifiers, and lists that take all that is left.
-/

namespace JavaFrontend.OperandM

open Java Piece NodeSort

/-! ### What is selected -/

theorem chooses_identifier : Chooses [.identifier] identifier? where
  single holds := by cases holds <;> simp [identifier?]
  list _ _ := rfl

theorem chooses_expr : Chooses (.identifier :: expressions) Node.expr? where
  single holds := by cases holds <;> simp [Node.expr?, expressions]
  list _ _ := rfl

/-- An identifier alone is not taken for an expression. -/
theorem chooses_properExpr : Chooses expressions fun
    | .identifier _ => none
    | node => node.expr? where
  single holds := by cases holds <;> simp [expressions, Node.expr?]
  list _ _ := rfl

theorem chooses_type : Chooses NodeSort.types type? where
  single holds := by cases holds <;> simp [type?, NodeSort.types]
  list _ _ := rfl

theorem chooses_modifier : Chooses NodeSort.modifiers modifier? where
  single holds := by cases holds <;> simp [modifier?, NodeSort.modifiers]
  list _ _ := rfl

theorem chooses_annotationUse : Chooses [.annotationUse] annotationUse? where
  single holds := by cases holds <;> simp [annotationUse?]
  list _ _ := rfl

theorem chooses_arguments : Chooses [.arguments] arguments? where
  single holds := by cases holds <;> simp [arguments?]
  list _ _ := rfl

/-! ### The rules -/

namespace Makes

variable {row : List Piece} {before : List Word} {shape result : Shape} {kind : Kind}

theorem eat {go : Option Token → OperandM Node}
    (further : ∀ token : Token, token.kind = kind → Makes row before (go (some token)) result) :
    Makes (.token kind :: row) before (eat? kind >>= go) result := by
  refine bind row fun rule nodes matched => ?_
  cases matched with
  | @part _ node _ nodes holds rest =>
    obtain ⟨sort, among, holds⟩ := Shape.holds_of.mp holds
    obtain rfl := List.mem_singleton.mp among
    cases holds with
    | token part same =>
      have chosen : tokenOf? kind (.token part) = some part := by simp [tokenOf?, token?, same]
      refine ⟨some part, [.token part], nodes, rfl, run_take_some chosen, rest, ?_⟩
      simpa using further part same

theorem eat_none {go : Option Token → OperandM Node} (avoid : avoids [.token kind] row)
    (further : Makes row before (go none) result) :
    Makes row before (eat? kind >>= go) result :=
  take_none (chooses_tokenOf kind) avoid further

theorem identifier {go : Identifier → OperandM Node}
    (further : ∀ part, Makes row (before ++ [.identifier part]) (go part) result) :
    Makes (one [.identifier] :: row) before (OperandM.identifier >>= go) result :=
  nextAs chooses_identifier rfl further

theorem takeIdentifier {go : Option Identifier → OperandM Node}
    (avoid : avoids [.identifier] row)
    (further : ∀ part, Makes row (before ++ words part) (go part) result) :
    Makes (opt [.identifier] :: row) before (OperandM.takeIdentifier >>= go) result :=
  take chooses_identifier rfl avoid further

theorem name {go : QualifiedName → OperandM Node}
    (further : ∀ part, Makes row (before ++ words part) (go part) result) :
    Makes (one [.name] :: row) before (OperandM.name >>= go) result := by
  refine nextAs (?_ : Chooses [.name, .identifier] _) rfl further
  exact ⟨fun holds => by cases holds <;> simp, fun _ _ => rfl⟩

theorem expr {go : Expr → OperandM Node}
    (further : ∀ part, Makes row (before ++ part.words) (go part) result) :
    Makes (one expressions :: row) before (OperandM.expr >>= go) result :=
  nextAs chooses_expr rfl further

theorem takeExpr {go : Option Expr → OperandM Node} (avoid : avoids expressions row)
    (further : ∀ part, Makes row (before ++ words part) (go part) result) :
    Makes (opt expressions :: row) before (OperandM.takeExpr >>= go) result :=
  take chooses_properExpr rfl avoid further

theorem takeExpr_some {go : Option Expr → OperandM Node}
    (further : ∀ part, Makes row (before ++ part.words) (go (some part)) result) :
    Makes (one expressions :: row) before (OperandM.takeExpr >>= go) result :=
  take_some chooses_properExpr rfl further

theorem takeExpr_none {go : Option Expr → OperandM Node} (avoid : avoids expressions row)
    (further : Makes row before (go none) result) :
    Makes row before (OperandM.takeExpr >>= go) result :=
  take_none chooses_properExpr avoid further

theorem type {go : TypeExpr → OperandM Node}
    (further : ∀ part, Makes row (before ++ part.words) (go part) result) :
    Makes (one NodeSort.types :: row) before (OperandM.type >>= go) result :=
  nextAs chooses_type rfl further

theorem block {go : Block → OperandM Node}
    (further : ∀ part, Makes row (before ++ part.words) (go part) result) :
    Makes (one [.block] :: row) before (OperandM.block >>= go) result := by
  refine nextAs (?_ : Chooses [.block] _) rfl further
  exact ⟨fun holds => by cases holds <;> simp, fun _ _ => rfl⟩

theorem dims {go : Nat → OperandM Node} (avoid : avoids [.dims] row)
    (further : ∀ count, Makes row before (go count) result) :
    Makes (opt [.dims] :: row) before (OperandM.dims >>= go) result := by
  unfold OperandM.dims
  rw [bind_assoc]
  refine take (?_ : Chooses [.dims] _) rfl avoid fun count => ?_
  · exact ⟨fun holds => by cases holds <;> simp, fun _ _ => rfl⟩
  · rw [pure_bind]
    cases count <;> simpa using further _

theorem modifiers {go : List (Tree .modifier) → OperandM Node}
    (avoid : avoids NodeSort.modifiers row)
    (further : ∀ parts, Makes row (before ++ words parts) (go parts) result) :
    Makes (many NodeSort.modifiers :: row) before (OperandM.modifiers >>= go) result :=
  repetition chooses_modifier rfl avoid further

theorem annotations {go : List AnnotationUse → OperandM Node}
    (avoid : avoids [.annotationUse] row)
    (further : ∀ parts, Makes row (before ++ words parts) (go parts) result) :
    Makes (many [.annotationUse] :: row) before (OperandM.annotations >>= go) result :=
  repetition chooses_annotationUse rfl avoid further

theorem typeArguments {go : List (Tree .typeArgument) → OperandM Node}
    (avoid : avoids [.typeArguments] row)
    (further : ∀ parts, Makes row (before ++ words parts) (go parts) result) :
    Makes (opt [.typeArguments] :: row) before (OperandM.typeArguments >>= go) result := by
  unfold OperandM.typeArguments
  rw [bind_assoc]
  refine take (?_ : Chooses [.typeArguments] _) rfl avoid fun parts => ?_
  · exact ⟨fun holds => by cases holds <;> simp, fun _ _ => rfl⟩
  · rw [pure_bind]
    simpa using further (parts.getD [])

theorem typeParameters {go : List (Tree .typeParameter) → OperandM Node}
    (avoid : avoids [.typeParameters] row)
    (further : ∀ parts, Makes row (before ++ words parts) (go parts) result) :
    Makes (opt [.typeParameters] :: row) before (OperandM.typeParameters >>= go) result := by
  unfold OperandM.typeParameters
  rw [bind_assoc]
  refine take (?_ : Chooses [.typeParameters] _) rfl avoid fun parts => ?_
  · exact ⟨fun holds => by cases holds <;> simp, fun _ _ => rfl⟩
  · rw [pure_bind]
    simpa using further (parts.getD [])

theorem arguments {go : List Expr → OperandM Node}
    (further : ∀ parts, Makes row (before ++ words parts) (go parts) result) :
    Makes (one [.arguments] :: row) before (OperandM.arguments >>= go) result :=
  nextAs chooses_arguments rfl further

theorem exprs {go : List Expr → OperandM Node}
    (within : (itemSortsOf row).all (· ∈ expressions))
    (further : ∀ parts, Makes [] (before ++ words parts) (go parts) result) :
    Makes row before (OperandM.exprs >>= go) result := by
  unfold OperandM.exprs
  rw [bind_assoc]
  simp only [List.all_eq_true, decide_eq_true_eq] at within
  refine allItems chooses_expr ?_ further
  simp only [List.all_eq_true, decide_eq_true_eq]
  exact fun sort among => List.mem_cons_of_mem _ (within sort among)

theorem types {go : List TypeExpr → OperandM Node}
    (within : (itemSortsOf row).all (· ∈ NodeSort.types))
    (further : ∀ parts, Makes [] (before ++ words parts) (go parts) result) :
    Makes row before (OperandM.types >>= go) result := by
  unfold OperandM.types
  rw [bind_assoc]
  exact allItems chooses_type within further

end Makes

end JavaFrontend.OperandM
