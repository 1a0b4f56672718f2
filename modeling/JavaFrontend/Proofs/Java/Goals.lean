import JavaFrontend.Proofs.Grammar.Meaning
import JavaFrontend.Proofs.Java.Typing

/-!
The grammars for the goals of Java. Every rule of such a grammar comes from an alternative, from a
repetition in one, or from the goal in front; and compilation units are among its names only if
they are the goal. So whatever the parts of any of its rules were made into, the rule is made into
something of the shape of its name, without an error and without a word lost.
-/

namespace JavaFrontend.Java

open Element OperandM JavaFrontend.Java.Reduction

/-! ### The alternatives -/

namespace Grammar

set_option maxRecDepth 100000 in
/-- Something is never left out of an alternative, nor of what it repeats. -/
private theorem solid_rules : rules.all fun alternative =>
    !(skeleton alternative.elements).isEmpty &&
      (rowBodies alternative.elements).all fun body => !(skeleton body).isEmpty := by
  decide

set_option maxRecDepth 100000 in
/-- No alternative refers to compilation units. -/
private theorem rules_without_units : rules.all fun alternative =>
    (bodyNames alternative.elements).all fun name => code name != code "CompilationUnit" := by
  decide

set_option maxRecDepth 100000 in
/-- All names with a shape have alternatives. -/
private theorem shapes_of_rules : shapesByCode.all fun entry =>
    (rules.map fun alternative => code alternative.name).contains entry.1 := by
  decide

variable {alternative : Alternative} {name : String}

theorem shapeOf_of_mem_rules (member : alternative ∈ rules) :
    (shapeOf alternative.name).isSome ∧
      (∀ name ∈ bodyNames alternative.elements, (shapeOf name).isSome) ∧
      ∀ body ∈ rowBodies alternative.elements, plainBody body := by
  have covers := List.all_eq_true.mp covered_rules alternative member
  unfold covered at covers
  cases known : shapeOf alternative.name with
  | none => simp [known] at covers
  | some shape =>
    simp only [known, Bool.and_eq_true, List.all_eq_true] at covers
    exact ⟨rfl, covers.1.1.1, plain_of_rowPlainRepetitions _ covers.1.2⟩

theorem mem_rules_of_shapeOf (known : (shapeOf name).isSome) :
    name ∈ rules.map (·.name) := by
  obtain ⟨shape, found⟩ := Option.isSome_iff_exists.mp known
  obtain ⟨ahead, behind, same, -⟩ := List.lookup_eq_some_iff.mp found
  have listed := List.all_eq_true.mp shapes_of_rules (code name, shape) (by simp [same])
  obtain ⟨alternative, member, coded⟩ := List.mem_map.mp (List.contains_iff_mem.mp listed)
  exact List.mem_map.mpr ⟨alternative, member, code_inj coded⟩

/-! ### Goals -/

/-- What grammars are made for: compilation units, of which there may be none, or fragments. -/
inductive IsGoal : Element → Prop where
  | units : IsGoal (maybe ["CompilationUnit"])
  | fragment (name : String) : IsGoal (.rule name)

/-- The alternative that puts the goal in front of the rules. -/
def goalAlternative (goal : Element) : Alternative := ⟨goalName, [goal, token .endOfInput]⟩

variable {goal : Element} {grammar : JavaFrontend.Grammar} {expansion : Expansion}

theorem IsGoal.rowBodies (isGoal : IsGoal goal) :
    Element.rowBodies (goalAlternative goal).elements = [] := by
  cases isGoal <;> rfl

/-- Whatever goal of Java a grammar is made for that all rules refer to names of, it is built. -/
theorem exists_build (isGoal : IsGoal goal) (known : ∀ name ∈ goal.names, (shapeOf name).isSome) :
    ∃ grammar, (withGoal goal).build = .ok grammar := by
  refine GrammarDraft.exists_build_of_solid rfl rfl List.mem_cons_self ?_ ?_
  · refine List.forall_mem_cons.mpr ⟨⟨?_, ?_⟩, fun alternative member => ?_⟩
    · cases isGoal <;> exact List.cons_ne_nil _ _
    · simp [show rowBodies [goal, token .endOfInput] = [] from isGoal.rowBodies]
    · simpa using List.all_eq_true.mp solid_rules alternative member
  · refine List.forall_mem_cons.mpr ⟨fun name member => ?_, fun alternative member name inside => ?_⟩
    · refine List.mem_cons_of_mem _ (mem_rules_of_shapeOf (known name ?_))
      simpa [bodyNames, token, Element.names] using member
    · exact List.mem_cons_of_mem _
        (mem_rules_of_shapeOf ((shapeOf_of_mem_rules member).2.1 name inside))

theorem named_of_sound (isGoal : IsGoal goal)
    (sound : expansion.Sound (goalAlternative goal :: rules)) : Named expansion.repetitions where
  names body name member := sound.prefix_of_mem member
  unique _ _ _ first second := sound.body_inj first second
  plain body name member := by
    obtain ⟨alternative, among, inside⟩ := List.mem_flatMap.mp (sound.inside _ member)
    rcases List.mem_cons.mp among with rfl | among
    · rw [isGoal.rowBodies] at inside
      cases inside
    · exact (shapeOf_of_mem_rules among).2.2 body inside

end Grammar

/-! ### The rules of a grammar for a goal -/

/-- What a grammar for the goal consists of. -/
structure IsFor (goal : Element) (expansion : Expansion) (grammar : JavaFrontend.Grammar) : Prop where
  isGoal : Grammar.IsGoal goal
  faithful : expansion.Faithful (Grammar.goalAlternative goal :: Grammar.rules)
  start : grammar.start = Grammar.goalName
  rules : ∀ rule ∈ grammar.rules, expansion.Has rule.name rule.parts
  /-- Compilation units are there only for themselves. -/
  units : (grammar.collection? "CompilationUnit").isSome → "CompilationUnit" ∈ goal.names

variable {goal : Element} {grammar : JavaFrontend.Grammar} {expansion : Expansion}

/-- A name that the expansion refers to is not that of compilation units, unless they are the
goal. -/
private theorem units_of_refers (isGoal : Grammar.IsGoal goal)
    (sound : expansion.Sound (Grammar.goalAlternative goal :: Grammar.rules)) {name : String}
    (refers : Reachability.Refers expansion.productions name "CompilationUnit") :
    "CompilationUnit" ∈ goal.names := by
  obtain ⟨sides, member, inside⟩ := refers
  obtain ⟨production, among, inside⟩ := Reachability.mem_references.mp inside
  rcases sound.mem_names ⟨sides, member, among⟩ inside with
    ⟨alternative, member, within⟩ | ⟨body, repeated⟩
  · rcases List.mem_cons.mp member with rfl | member
    · simpa [Grammar.goalAlternative, bodyNames, Grammar.token, Element.names] using within
    · have other := List.all_eq_true.mp
        (List.all_eq_true.mp Grammar.rules_without_units alternative member) _ within
      simp at other
  · have repetition := (Grammar.named_of_sound isGoal sound).names body _ repeated
    have shape : (shapeOf "CompilationUnit").isSome := by decide
    rw [shapeOf_of_isRepetition repetition] at shape
    cases shape

theorem isFor_of_build (isGoal : Grammar.IsGoal goal)
    (built : (Grammar.withGoal goal).build = .ok grammar) :
    ∃ expansion, IsFor goal expansion grammar := by
  obtain ⟨expansion, named, expanded, numbered, -⟩ := GrammarDraft.build_cases built
  have start : grammar.start = Grammar.goalName := (Option.some.inj named).symm
  have faithful := Expansion.faithful_of_ofAlternatives? expanded
  refine ⟨expansion, isGoal, faithful, start, fun rule member => ?_, fun units => ?_⟩
  · obtain ⟨sides, kept, among⟩ := (GrammarDraft.mem_rules_iff numbered).mp member
    exact ⟨sides, ((GrammarDraft.mem_kept_of_prune rfl).mp kept).1, among⟩
  · obtain ⟨collection, found⟩ := Option.isSome_iff_exists.mp units
    have member : "CompilationUnit" ∈ grammar.collections.map (·.name) := by
      have named := List.find?_some found
      rw [← beq_iff_eq.mp named]
      exact List.mem_map_of_mem (List.mem_of_find?_eq_some found)
    rw [numbered, GrammarDraft.map_name_number] at member
    obtain ⟨entry, kept, same⟩ := List.mem_map.mp member
    have reached := ((GrammarDraft.mem_kept_of_prune rfl).mp kept).2
    refine Reachability.reachable_induction
      (P := fun name => name = "CompilationUnit" → "CompilationUnit" ∈ goal.names)
      (Expansion.nodup_names expanded) ?_ ?_ entry.1 reached same
    · rw [start]
      intro same
      exact absurd same (by decide)
    · rintro name - other refers rfl
      exact units_of_refers isGoal faithful.sound refers

/-- What the alternatives mean by the goal with the end mark behind it, the grammar generates. -/
theorem generates_of_goal (isGoal : Grammar.IsGoal goal)
    (built : (Grammar.withGoal goal).build = .ok grammar) {kinds : List Kind}
    (means : Means (Grammar.withGoal goal).alternatives [goal] kinds) :
    grammar.Generates [.rule grammar.start] (kinds ++ [Kind.endOfInput]) := by
  obtain ⟨_, -, -, -, defined⟩ := GrammarDraft.build_cases built
  obtain ⟨_, isFor⟩ := isFor_of_build isGoal built
  have collected := (Grammar.defined_of_fault? defined).1
  rw [isFor.start] at collected ⊢
  refine GrammarDraft.generates_of_means built collected ⟨_, List.mem_cons_self, rfl, ?_⟩
  exact means.append (.token .endOfInput .nil)

/-! ### What becomes of the rules -/

namespace IsFor

variable {id : Nat} {rule : Rule} {nodes : List Node}

theorem named (isFor : IsFor goal expansion grammar) : Named expansion.repetitions :=
  Grammar.named_of_sound isFor.isGoal isFor.faithful.sound

/-- The sequences that the alternative of the goal stands for. -/
theorem parts_of_goal (isGoal : Grammar.IsGoal goal) {production : Production}
    {repetitions : Repetitions}
    (spelled : Spells repetitions (Grammar.goalAlternative goal).elements production) :
    production = [.token .endOfInput] ∧ goal.names = ["CompilationUnit"] ∨
      ∃ name, production = [.rule name, .token .endOfInput] ∧ goal.names = [name] := by
  cases isGoal with
  | units =>
    cases spelled with
    | skip _ rest =>
      cases rest with
      | token _ rest =>
        cases rest
        exact .inl ⟨rfl, rfl⟩
    | take inside rest =>
      cases inside with
      | rule _ inside =>
        cases inside
        cases rest with
        | token _ rest =>
          cases rest
          exact .inr ⟨_, rfl, rfl⟩
  | fragment name =>
    cases spelled with
    | rule _ rest =>
      cases rest with
      | token _ rest =>
        cases rest
        exact .inr ⟨name, rfl, rfl⟩

private theorem fits_goal (repetitions : Repetitions) (named : Named repetitions) (node : Node) :
    Fits repetitions Grammar.goalName node where
  collection shape found := by
    rw [shapeOf_goalName] at found
    cases found
  repetition body member := by
    have repetition := named.names body _ member
    rw [show TreeBuilder.isRepetition Grammar.goalName = false by decide] at repetition
    cases repetition

/-- The rule for the goal is made into a compilation unit or what the goal was made into. -/
private theorem reduces_goal (isFor : IsFor goal expansion grammar) {production : Production}
    (found : grammar.rule? id = some ⟨Grammar.goalName, production⟩)
    (spelled : Spells expansion.repetitions (Grammar.goalAlternative goal).elements production)
    (fit : List.Forall₂ (PartFits expansion.repetitions) production nodes) :
    ∃ node, (builder grammar).reduce id nodes = .ok node ∧ node.words = words nodes := by
  have other : ¬ TreeBuilder.isRepetition Grammar.goalName := by decide
  have several : (⟨Grammar.goalName, production⟩ : Rule).unitTarget? = none := by
    rcases parts_of_goal isFor.isGoal spelled with ⟨rfl, -⟩ | ⟨name, rfl, -⟩ <;> rfl
  rw [reduce_construct found other several (if_pos rfl)]
  split
  · next units =>
    have goal := isFor.units units
    obtain ⟨row, matched, makes⟩ : ∃ row, Piece.Matches row nodes ∧
        Makes row [] unitGoal (.of [.unit]) := by
      rcases parts_of_goal isFor.isGoal spelled with ⟨rfl, -⟩ | ⟨name, rfl, single⟩
      · refine ⟨_, matches_of_spells ?_ (.token .endOfInput .nil) fit, makes_emptyUnit⟩
        simp [bodyNames, Element.names]
      · obtain rfl : "CompilationUnit" = name := by simpa [single] using goal
        refine ⟨_, matches_of_spells ?_
          (.rule "CompilationUnit" (.token .endOfInput .nil)) fit, ?_⟩
        · simp [bodyNames, Element.names]
          decide
        · exact makes_unitGoal
    obtain ⟨node, after, ran, -, same⟩ := makes Grammar.goalName nodes matched
    exact ⟨node, by rw [ran], same⟩
  · rcases parts_of_goal isFor.isGoal spelled with ⟨rfl, -⟩ | ⟨name, rfl, -⟩
    · obtain ⟨ended, rest, holds, none, rfl⟩ := List.forall₂_cons_left_iff.mp fit
      cases none
      exact ⟨ended, rfl, by simp⟩
    · obtain ⟨node, rest, -, last, rfl⟩ := List.forall₂_cons_left_iff.mp fit
      obtain ⟨ended, rest, holds, none, rfl⟩ := List.forall₂_cons_left_iff.mp last
      cases none
      cases (holds : (NodeSort.token .endOfInput).Holds ended)
      exact ⟨node, rfl, by simp [Node.words]⟩

/-- Whatever the parts of a rule were made into, if it is of the shapes of their names then the rule
is made into something of the shape of its own, with all their words. -/
theorem reduces (isFor : IsFor goal expansion grammar) (found : grammar.rule? id = some rule)
    (fit : List.Forall₂ (PartFits expansion.repetitions) rule.parts nodes) :
    ∃ node, (builder grammar).reduce id nodes = .ok node ∧
      Fits expansion.repetitions rule.name node ∧ node.words = words nodes := by
  obtain ⟨name, parts⟩ := rule
  have origin := isFor.faithful.sound.origins name parts (isFor.rules _ (Grammar.rule?_mem found))
  cases origin with
  | alternative member same spelled =>
    rcases List.mem_cons.mp member with rfl | member
    · cases same
      obtain ⟨node, made, same⟩ := isFor.reduces_goal found spelled fit
      exact ⟨node, made, fits_goal _ isFor.named node, same⟩
    · cases same
      exact isFor.named.collection member found spelled fit
  | once member spelled => exact isFor.named.repetition member found (.inl spelled) fit
  | again member spelled => exact isFor.named.repetition member found (.inr ⟨_, rfl, spelled⟩) fit

end IsFor

end JavaFrontend.Java
