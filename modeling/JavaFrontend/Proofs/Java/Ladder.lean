import JavaFrontend.Proofs.Grammar.Meaning
import JavaFrontend.Proofs.Java.Precedence
import JavaFrontend.Proofs.Java.Sieve
import Mathlib.Tactic.IntervalCases

/-!
The names of the Java grammar for binary operators, one for each level: the operands on the left of
an operator are of its level, those on the right of the next. So the grammar has all rows of names
and operators (`means_chain`), and what is built of one is grouped by level (`reads_of_made`).
-/

namespace JavaFrontend.Java

open OperandM JavaFrontend.Java.Reduction

/-! ### Rows of names and operators -/

/-- The kinds of names with the operators between them. -/
def chainKinds (operators : List Kind) : List Kind :=
  .identifier :: operators.flatMap fun operator => [operator, .identifier]

theorem chainKinds_append (front back : List Kind) (operator : Kind) :
    chainKinds (front ++ operator :: back) = chainKinds front ++ operator :: chainKinds back := by
  simp [chainKinds]

/-- The name that a token is alone. -/
def nameOf (token : Token) : QualifiedName := .ofIdentifier ⟨token.text, token.position⟩

/-- The tokens are the names with the operators between them. -/
inductive IsChain : List Token → List QualifiedName → List Kind → Prop where
  | name {token : Token} (isName : token.kind = .identifier) : IsChain [token] [nameOf token] []
  | cons {token operator : Token} {tokens : List Token} {names : List QualifiedName}
      {operators : List Kind} (isName : token.kind = .identifier)
      (known : operator.kind ∈ binaryOperators) (rest : IsChain tokens names operators) :
    IsChain (token :: operator :: tokens) (nameOf token :: names) (operator.kind :: operators)

variable {tokens front back : List Token} {names : List QualifiedName} {operators : List Kind}
  {parts : Production} {nodes : List Node} {node : Node} {name : String} {operator : Kind}
  {token : Token}

theorem not_identifier_of_operator (known : operator ∈ binaryOperators) :
    operator ≠ .identifier := by
  rintro rfl
  exact absurd known (by decide)

namespace IsChain

theorem kinds_eq (chain : IsChain tokens names operators) :
    tokens.map (·.kind) = chainKinds operators := by
  induction chain with
  | name isName => simp [chainKinds, isName]
  | cons isName _ _ ih => simpa [chainKinds, isName] using ih

theorem mem_kinds (chain : IsChain tokens names operators) :
    ∀ token ∈ tokens, token.kind ∈ .identifier :: binaryOperators := by
  induction chain with
  | name isName => simp [isName]
  | cons isName known _ ih =>
    exact List.forall_mem_cons.mpr
      ⟨isName ▸ List.mem_cons_self, List.forall_mem_cons.mpr ⟨List.mem_cons_of_mem _ known, ih⟩⟩

theorem known (chain : IsChain tokens names operators) :
    ∀ operator ∈ operators, operator ∈ binaryOperators := by
  induction chain with
  | name => simp
  | cons _ known _ ih => exact List.forall_mem_cons.mpr ⟨known, ih⟩

/-- Before and behind each operator there are names and operators too. -/
theorem split (chain : IsChain (front ++ token :: back) names operators)
    (known : token.kind ∈ binaryOperators) :
    ∃ names₁ names₂ operators₁ operators₂, IsChain front names₁ operators₁ ∧
      IsChain back names₂ operators₂ ∧ names = names₁ ++ names₂ ∧
      operators = operators₁ ++ token.kind :: operators₂ := by
  generalize whole : front ++ token :: back = tokens at chain
  induction chain generalizing front with
  | @name first isName =>
    obtain ⟨rfl, ⟨rfl⟩⟩ | ⟨_, rfl, none⟩ := List.append_eq_cons_iff.mp whole
    · exact absurd isName (not_identifier_of_operator known)
    · simp at none
  | @cons first between tokens names operators isName isOperator rest ih =>
    rcases front with _ | ⟨_, _ | ⟨_, front⟩⟩
    · cases whole
      exact absurd isName (not_identifier_of_operator known)
    · cases whole
      exact ⟨[nameOf _], names, [], operators, .name isName, rest, rfl, rfl⟩
    · cases whole
      obtain ⟨names₁, names₂, operators₁, operators₂, first, second, rfl, rfl⟩ := ih rfl
      exact ⟨_, names₂, _, operators₂, .cons isName isOperator first, second, rfl, rfl⟩

/-- It begins with a name. -/
theorem begins (chain : IsChain (token :: tokens) names operators) : token.kind = .identifier := by
  cases chain <;> assumption

end IsChain

/-! ### The names of the levels -/

/-- The name for the operators of the level, and for what stands between those of the last. -/
def rung (level : Nat) : String := [
  "ConditionalOrExpression", "ConditionalAndExpression", "InclusiveOrExpression",
  "ExclusiveOrExpression", "AndExpression", "EqualityExpression", "RelationalExpression",
  "ShiftExpression", "AdditiveExpression", "MultiplicativeExpression"].getD level "UnaryExpression"

/-- The names for expressions, each of which the next may stand for alone, and the least level of
operator that they are for. -/
def ladder : List (String × Nat) :=
  ["Expression", "AssignmentExpression", "ConditionalExpression"].map (·, 0) ++
    (List.range 11).map (fun level => (rung level, level)) ++
    ["UnaryExpressionNotPlusMinus", "PostfixExpression", "DottedName"].map (·, 10)

def levelOf (name : String) : Nat := (ladder.lookup name).getD 0

/-- The alternatives for names and binary operators, and those for signs. -/
def chainAlternatives : List Alternative :=
  (ladder.zip ladder.tail).map (fun (upper, lower) => ⟨upper.1, [.rule lower.1]⟩) ++
  binaryOperators.map (fun operator => ⟨rung operator.level,
    [.rule (rung operator.level), .token operator, .rule (rung (operator.level + 1))]⟩) ++
  [.plus, .minus].map (fun sign => ⟨"UnaryExpression", [.token sign, .rule "UnaryExpression"]⟩) ++
  [⟨"DottedName", [.token .identifier]⟩]

/-- Names that stand for nothing of names and operators alone. -/
def chainBarren : List String := [
  "LambdaExpression", "Assignment", "AssignmentOperator", "PreIncrementExpression",
  "PreDecrementExpression", "CastExpression", "Primary", "PostIncrementExpression",
  "PostDecrementExpression", "PrimaryNoNewArray", "ArrayCreationExpression", "Literal",
  "ClassLiteral", "ClassInstanceCreationExpression", "UnqualifiedClassInstanceCreationExpression",
  "FieldAccess", "ArrayAccess", "MethodInvocation", "MethodReference", "Arguments"]

theorem sieve_chain : Sieve (.identifier :: binaryOperators) chainBarren chainAlternatives where
  starves := by decide +kernel
  keeps := by decide +kernel
  closed := by decide

/-! ### What is built -/

/-- If the tokens are names and operators, then what is built for the name is an expression of them,
grouped by level, and it has no operator of its own of a lower level than the name. -/
def Reads (name : String) (tokens : List Token) (node : Node) : Prop :=
  ∀ names operators, IsChain tokens names operators → ∃ tree, node.expr? = some tree ∧
    Grouped tree ∧ tree.operands = names ∧ tree.operators = operators ∧
    ∀ outer ∈ tree.operator?, levelOf name ≤ outer.level

theorem reads_of_single {inner : String} (le : levelOf name ≤ levelOf inner)
    (made : Made Reads [.rule inner] tokens parts nodes) (reduces : Reduces name parts nodes node) :
    Reads name tokens node := by
  cases made with
  | @rule _ _ _ _ _ operand _ reads rest =>
    cases rest
    obtain ⟨rfl⟩ : [operand] = [node] := reduces
    rw [List.append_nil]
    intro names operators chain
    obtain ⟨tree, isTree, grouped, same, between, above⟩ := reads names operators chain
    exact ⟨tree, isTree, grouped, same, between, fun outer isOuter =>
      Nat.le_trans le (above outer isOuter)⟩

theorem run_binary {left right : Node} {first last : Expr} (isFirst : left.expr? = some first)
    (isLast : right.expr? = some last) (fit : Fitting token)
    (known : token.kind ∈ binaryOperators) :
    (binary.run ⟨name, [left, .ofToken token, right]⟩).1 =
      .ok (.expr (.binary first token.kind last)) := by
  have plain : ∀ operator ∈ binaryOperators,
      NodeSort.ofKind operator = .token operator ∧ operator ≠ .instanceofWord := by decide
  obtain ⟨leaf, other⟩ := plain _ known
  rw [ofToken_of_fitting fit leaf]
  have first : expr.run ⟨name, [left, .token token, right]⟩ =
      (.ok first, ⟨name, [.token token, right]⟩) := run_nextAs isFirst
  have second : OperandM.token.run ⟨name, [.token token, right]⟩ = (.ok token, ⟨name, [right]⟩) :=
    run_nextAs rfl
  have third : expr.run ⟨name, [right]⟩ = (.ok last, ⟨name, []⟩) := run_nextAs isLast
  unfold binary
  rw [run_bind first, run_bind second, if_neg other, run_bind third]
  rfl

theorem level_rung : ∀ operator ∈ binaryOperators,
    levelOf (rung operator.level) = operator.level ∧
      levelOf (rung (operator.level + 1)) = operator.level + 1 := by
  decide

theorem lookup_rung (known : operator ∈ binaryOperators) :
    table.lookup (rung operator.level) = some binary := by
  have below : ∀ operator ∈ binaryOperators, operator.level < 10 := by decide
  have below := below operator known
  interval_cases operator.level <;> rfl

theorem reads_of_binary (known : operator ∈ binaryOperators)
    (fit : ∀ token ∈ tokens, Fitting token)
    (made : Made Reads [.rule (rung operator.level), .token operator,
      .rule (rung (operator.level + 1))] tokens parts nodes)
    (reduces : Reduces (rung operator.level) parts nodes node) :
    Reads (rung operator.level) tokens node := by
  obtain ⟨same, next⟩ := level_rung operator known
  cases made with
  | rule readsLeft made =>
    cases made with
    | token token isOperator made =>
      cases made with
      | rule readsRight made =>
        cases made
        subst isOperator
        rw [List.append_nil] at fit ⊢
        intro names operators chain
        obtain ⟨_, _, _, _, before, behind, rfl, rfl⟩ := chain.split known
        obtain ⟨left, isLeft, inLeft, rfl, rfl, above⟩ := readsLeft _ _ before
        obtain ⟨right, isRight, inRight, rfl, rfl, above'⟩ := readsRight _ _ behind
        rw [same] at above
        rw [next] at above'
        obtain ⟨_, found, ran⟩ := reduces
        cases (lookup_rung known).symm.trans found
        rw [run_binary isLeft isRight (fit token (by simp)) known] at ran
        cases ran
        refine ⟨_, rfl, .binary known inLeft inRight above above', rfl, rfl, ?_⟩
        rintro _ ⟨⟩
        exact Nat.le_of_eq same

/-- What begins with a sign does not begin with a name. -/
theorem reads_of_sign {sign : Kind} (other : sign ≠ .identifier)
    (made : Made Reads [.token sign, .rule "UnaryExpression"] tokens parts nodes) :
    Reads name tokens node := by
  cases made with
  | token token isSign =>
    intro _ _ chain
    exact absurd (isSign.symm.trans chain.begins) other

theorem reads_of_name (made : Made Reads [.token .identifier] tokens parts nodes)
    (reduces : Reduces "DottedName" parts nodes node) : Reads "DottedName" tokens node := by
  cases made with
  | token token isName made =>
    cases made
    intro _ _ chain
    cases chain
    obtain ⟨_, found, ran⟩ := reduces
    cases found
    unfold dottedName at ran
    rw [run_bind (run_identifier isName)] at ran
    cases ran
    exact ⟨_, rfl, .name _, rfl, rfl, by simp⟩

theorem levelOf_le : ∀ pair ∈ ladder.zip ladder.tail, levelOf pair.1.1 ≤ levelOf pair.2.1 := by
  decide

/-- Each alternative keeps to its level. -/
theorem reads_of_made : ∀ alternative ∈ chainAlternatives, ∀ (tokens : List Token)
    (parts : Production) (nodes : List Node) (node : Node), (∀ token ∈ tokens, Fitting token) →
      Made Reads alternative.elements tokens parts nodes →
        Reduces alternative.name parts nodes node → Reads alternative.name tokens node := by
  intro alternative member tokens parts nodes node fit made reduces
  simp only [chainAlternatives, List.mem_append, List.mem_singleton] at member
  rcases member with ((single | binary) | sign) | rfl
  · obtain ⟨pair, adjacent, rfl⟩ := List.mem_map.mp single
    exact reads_of_single (levelOf_le pair adjacent) made reduces
  · obtain ⟨operator, known, rfl⟩ := List.mem_map.mp binary
    exact reads_of_binary known fit made reduces
  · obtain ⟨kind, known, rfl⟩ := List.mem_map.mp sign
    have other : ∀ kind ∈ [Kind.plus, Kind.minus], kind ≠ .identifier := by decide
    exact reads_of_sign (other kind known) made
  · exact reads_of_name made reduces

/-! ### What the grammar derives -/

section Derived

variable {alternatives : List Alternative} {kinds : List Kind} {level : Nat}
  (all : Grammar.rules ⊆ alternatives)
include all

/-- What is for a level is for those below too. -/
theorem means_lower {lower : Nat} (le : lower ≤ level) (few : level ≤ 10)
    (inside : Means alternatives [.rule (rung level)] kinds) :
    Means alternatives [.rule (rung lower)] kinds := by
  have listed : ∀ level < 10, ⟨rung level, [.rule (rung (level + 1))]⟩ ∈ Grammar.rules := by
    decide
  induction le with
  | refl => exact inside
  | @step level _ ih =>
    exact ih (by omega) (means_name (all (listed level (by omega))) inside)

theorem means_grouped {tree : Expr} (grouped : Grouped tree) (few : level ≤ 10)
    (above : ∀ outer ∈ tree.operator?, level ≤ outer.level) :
    Means alternatives [.rule (rung level)] (chainKinds tree.operators) := by
  induction grouped generalizing level with
  | name =>
    have dotted : Means alternatives [.rule "DottedName"] [.identifier] := by
      have none : Occurs alternatives [.token .dot, .token .identifier] [] := .nil
      have listed : ⟨"DottedName", [.token .identifier,
          .repeated [.token .dot, .token .identifier]]⟩ ∈ Grammar.rules := by decide
      exact means_name (all listed) (.token .identifier (none.repeated .nil))
    have primary : Means alternatives [.rule "PostfixExpression"] [.identifier] :=
      means_name (all (by decide)) dotted
    have unsigned : Means alternatives [.rule "UnaryExpressionNotPlusMinus"] [.identifier] :=
      means_name (all (by decide)) primary
    exact means_lower all few (Nat.le_refl 10) (means_name (all (by decide)) unsigned)
  | @binary left right operator known _ _ before behind leftIh rightIh =>
    have listed : ∀ operator ∈ binaryOperators, operator.level < 10 ∧
        ⟨rung operator.level, [.rule (rung operator.level), .token operator,
          .rule (rung (operator.level + 1))]⟩ ∈ Grammar.rules := by decide
    obtain ⟨few', member⟩ := listed operator known
    have first := leftIh (Nat.le_of_lt few') before
    have last := rightIh (Nat.succ_le_of_lt few') fun outer isOuter => behind outer isOuter
    refine means_lower all (above operator rfl) (Nat.le_of_lt few') (means_name (all member) ?_)
    rw [operators_binary, chainKinds_append]
    exact first.append (.token operator last)

/-- Names with any binary operators between them are an expression. -/
theorem means_chain {operators : List Kind}
    (known : ∀ operator ∈ operators, operator ∈ binaryOperators) :
    Means alternatives [.rule "Expression"] (chainKinds operators) := by
  let blank : QualifiedName := .ofIdentifier ⟨"", default⟩
  obtain ⟨tree, grouped, -, same⟩ := exists_grouped blank (operators.map (·, blank))
    (by simpa using known)
  have whole : tree.operators = operators := by simpa [Function.comp_def] using same
  have lowest := means_grouped all grouped (Nat.zero_le 10) fun _ _ => Nat.zero_le _
  rw [whole] at lowest
  have conditional : Means alternatives [.rule "ConditionalExpression"] (chainKinds operators) :=
    means_name (all (by decide)) lowest
  have assignment : Means alternatives [.rule "AssignmentExpression"] (chainKinds operators) :=
    means_name (all (by decide)) conditional
  exact means_name (all (by decide)) assignment

end Derived

end JavaFrontend.Java
