import JavaFrontend.Java.Parser
import JavaFrontend.Proofs.Place.Expressions
import JavaFrontend.Proofs.Reduction.GenericTree

/-!
Ways of building trees that are blind to places, and those for Java and for any grammar among them.
-/

namespace JavaFrontend

open OperandM

namespace TreeBuilder

/-- All constructors are blind to places. -/
def Blind (builder : TreeBuilder) : Prop :=
  ∀ rule constructor, (rule, .construct constructor) ∈ builder.reductions →
    OperandM.Blind constructor

variable {builder : TreeBuilder} {grammar : Grammar}

theorem blind_ofGrammar {constructor? : String → Option (OperandM Node)}
    (blind : ∀ name constructor, constructor? name = some constructor →
      OperandM.Blind constructor) (keepTokens : Bool) :
    (ofGrammar grammar constructor? keepTokens).Blind := by
  intro rule constructor member
  obtain ⟨from_, -, same⟩ := Array.mem_map.mp member
  obtain ⟨rfl, made⟩ := Prod.mk.inj same
  unfold reductionOf at made
  split at made
  · cases made
  split at made
  · cases made
  split at made
  · next found =>
    cases made
    exact blind _ _ found
  · cases made

theorem blind_genericNode : OperandM.Blind genericNode :=
  blind_rest.bind fun children => blind_rule.bind fun _ =>
    .pure (congrArg _ (unplacedAll_eq children))

theorem blind_generic (grammar : Grammar) : (generic grammar).Blind :=
  blind_ofGrammar (fun _ _ same => Option.some.inj same ▸ blind_genericNode) true

/-! ### What becomes of rules -/

theorem bodyItems_unplaced (keepTokens : Bool) (body : List Node) :
    bodyItems keepTokens (unplaced body) = unplaced (bodyItems keepTokens body) := by
  have tokens : (unplaced body).all Node.isToken = body.all Node.isToken :=
    List.all_map.trans (congrArg body.all (funext isToken_unplaced))
  unfold bodyItems
  rw [tokens]
  split
  · rfl
  split
  · exact List.map_take.symm
  · exact filter_unplaced (fun node => congrArg not (isToken_unplaced node)) body

theorem repeatedNode_unplaced (keepTokens : Bool) (rule : Rule) (operands : List Node) :
    repeatedNode keepTokens rule (unplaced operands) =
      unplaced (repeatedNode keepTokens rule operands) := by
  unfold repeatedNode
  split
  · cases operands with
    | nil => rfl
    | cons operand body =>
      cases operand with
      | list element items =>
        refine congrArg (fun items => Except.ok (Node.list element items)) ?_
        rw [unplacedAll_eq, unplacedAll_eq, unplaced_append]
        exact congrArg (unplaced items ++ ·) (bodyItems_unplaced keepTokens body)
      | _ => rfl
  · refine congrArg (fun items => Except.ok (Node.list rule.name items)) ?_
    rw [unplacedAll_eq, bodyItems_unplaced]

/-- What a completed rule is made into without places is what it is made into, without places. -/
theorem reduce_unplaced (blind : builder.Blind) (id : Nat) (operands : List Node) :
    builder.reduce id (unplaced operands) = unplaced (builder.reduce id operands) := by
  unfold reduce
  cases found : builder.reductions[id]? with
  | none => rfl
  | some entry =>
    obtain ⟨rule, reduction⟩ := entry
    cases reduction with
    | missing => rfl
    | passThrough => cases operands <;> rfl
    | repetition => exact repeatedNode_unplaced builder.keepTokens rule operands
    | construct constructor =>
      exact congrArg Prod.fst
        (blind rule constructor (Array.mem_of_getElem? found) ⟨rule.name, operands⟩)

end TreeBuilder

namespace Java.Reduction

theorem blind_table : ∀ entry ∈ table, OperandM.Blind entry.2 := by
  simp only [table, List.forall_mem_cons]
  exact ⟨
    blind_compilationUnit, blind_packageDeclaration, blind_importDeclaration, blind_empty,
    blind_dottedName, blind_primitiveType, blind_classType, blind_simpleClassType,
    blind_arrayType, blind_arrayDims, blind_typeArgumentList, blind_wildcard,
    blind_typeParameterList, blind_typeParameter, blind_additionalBound, blind_annotationUse,
    blind_elementPair, blind_elementArray, blind_classDeclaration, blind_modifier, blind_modifier,
    blind_superclass, blind_interfaces, blind_interfaces, blind_classBody, blind_empty,
    blind_staticInitializer, blind_fieldDeclaration, blind_list, blind_variableDeclarator,
    blind_variableDeclaratorId, blind_methodDeclaration, blind_first, blind_list,
    blind_formalParameter, blind_exceptions, blind_empty, blind_constructorDeclaration,
    blind_braces, blind_constructorCall, blind_enumDeclaration, blind_enumBody,
    blind_enumConstant, blind_enumBodyDeclarations, blind_interfaceDeclaration,
    blind_arrayInitializer, blind_braces, blind_variablesStatement, blind_localVariables,
    blind_emptyStatement, blind_labeledStatement, blind_labeledStatement, blind_exprStatement,
    blind_ifStatement, blind_ifStatement, blind_ifStatement, blind_assertStatement,
    blind_switchStatement, blind_switchBlock, blind_switchGroup, blind_switchLabel,
    blind_whileStatement, blind_whileStatement, blind_doStatement, blind_forStatement,
    blind_forStatement, blind_list, blind_forEachStatement, blind_forEachStatement,
    blind_jumpStatement, blind_jumpStatement, blind_returnStatement, blind_throwStatement,
    blind_synchronizedStatement, blind_tryStatement, blind_catchClause, blind_list,
    blind_finallyBlock, blind_resources, blind_resource, blind_primary, blind_first,
    blind_classLiteral, blind_qualifiedCreation, blind_creation, blind_diamond,
    blind_argumentList, blind_fieldAccess, blind_arrayAccess, blind_methodInvocation,
    blind_methodReference, blind_arrayCreation, blind_list, blind_dimensionLength, blind_lambda,
    blind_lambdaParameters, blind_assignment, blind_first, blind_conditional, blind_binary,
    blind_binary, blind_binary, blind_binary, blind_binary, blind_binary, blind_binary,
    blind_binary, blind_binary, blind_binary, blind_leading, blind_leading, blind_leading,
    blind_leading, blind_trailing, blind_trailing, blind_cast, List.forall_mem_nil _⟩

/-- The reductions of the Java grammar are blind to places. -/
theorem blind_builder (grammar : JavaFrontend.Grammar) : (builder grammar).Blind :=
  TreeBuilder.blind_ofGrammar (fun name constructor found => by
    unfold constructor? at found
    split at found
    · cases found
      split
      · exact blind_unitGoal
      · exact blind_first
    · obtain ⟨entries, more, same, -⟩ := List.lookup_eq_some_iff.mp found
      exact blind_table (name, constructor) (by simp [same])) false

end Java.Reduction

end JavaFrontend
