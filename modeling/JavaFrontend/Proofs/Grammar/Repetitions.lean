import JavaFrontend.Proofs.Grammar.Meaning

/-!
The collections of repetitions. They are numbered through, one for each body that is repeated, and
hold what the body stands for, once and behind the name of the collection. This relies on no
alternative having the name of such a collection, which nothing keeps it from: its right sides are
then mixed up with those of the repetition.
-/

namespace JavaFrontend

open Element

namespace Expansion

variable {alternatives : List Alternative} {expansion : Expansion}

mutual

private theorem Faithful.named_of_element (faithful : expansion.Faithful alternatives)
    {body : List Element} : (element : Element) →
    (∀ other ∈ element.outer, ∃ name, (other, name) ∈ expansion.repetitions) →
    body ∈ element.bodies → ∃ name, (body, name) ∈ expansion.repetitions
  | .token _, _, member | .rule _, _, member => by simp [bodies] at member
  | .optional inner, named, member => faithful.named_of_row inner named member
  | .repeated inner, named, member => by
    obtain ⟨name, known⟩ := named inner (List.mem_singleton_self _)
    rcases List.mem_cons.mp member with rfl | deeper
    · exact ⟨name, known⟩
    · exact faithful.named_of_row inner (faithful.repeats _ known).named deeper

/-- If the outer repetitions of a row have names, all repetitions in it have. -/
theorem Faithful.named_of_row (faithful : expansion.Faithful alternatives)
    {body : List Element} : (elements : List Element) →
    (∀ other ∈ rowOuter elements, ∃ name, (other, name) ∈ expansion.repetitions) →
    body ∈ rowBodies elements → ∃ name, (body, name) ∈ expansion.repetitions
  | [], _, member => by simp [rowBodies] at member
  | element :: elements, named, member => by
    obtain ⟨here, later⟩ := List.forall_mem_append.mp named
    rcases List.mem_append.mp member with among | among
    · exact faithful.named_of_element element here among
    · exact faithful.named_of_row elements later among

end

/-- The bodies that have names are those of the repetitions in the alternatives. -/
theorem Faithful.named_iff (faithful : expansion.Faithful alternatives) {body : List Element} :
    (∃ name, (body, name) ∈ expansion.repetitions) ↔
      body ∈ alternatives.flatMap fun alternative => rowBodies alternative.elements := by
  constructor
  · rintro ⟨name, known⟩
    exact faithful.sound.inside _ known
  · intro member
    obtain ⟨alternative, among, inside⟩ := List.mem_flatMap.mp member
    exact faithful.named_of_row _ (faithful.covers alternative among).named inside

end Expansion

namespace GrammarDraft

open Reachability

/-- The names for the repetitions of the draft keep to themselves in the grammar. -/
structure Hygienic (draft : GrammarDraft) (grammar : Grammar) (repetitions : Repetitions) :
    Prop where
  /-- Each body that is repeated has a name, and nothing else has. -/
  bodies : ∀ body, (∃ name, (body, name) ∈ repetitions) ↔
    body ∈ draft.alternatives.flatMap fun alternative => rowBodies alternative.elements
  distinct : (repetitions.map (·.1)).Nodup
  numbered : repetitions.map (·.2) =
    (List.range repetitions.length).map fun i => repetitionPrefix ++ toString (i + 1)
  /-- If a rule refers to the name, there is a collection for it. -/
  collected : ∀ entry ∈ repetitions, ∀ rule ∈ grammar.rules, .rule entry.2 ∈ rule.parts →
    entry.2 ∈ grammar.collections.map (·.name)
  /-- The collection for a body holds what the body spells, alone and behind the name. -/
  repeats : ∀ entry ∈ repetitions, ∀ collection ∈ grammar.collections, collection.name = entry.2 →
    ∀ production, production ∈ collection.productions ↔
      ∃ sequence, Spells repetitions entry.1 sequence ∧
        (production = sequence ∨ production = .rule entry.2 :: sequence)
  /-- Any other collection holds what the alternatives for its name spell. -/
  others : ∀ collection ∈ grammar.collections, collection.name ∉ repetitions.map (·.2) →
    ∀ production, production ∈ collection.productions ↔
      ∃ alternative ∈ draft.alternatives, alternative.name = collection.name ∧
        Spells repetitions alternative.elements production
  /-- No alternative goes into the collection for a body. -/
  unmixed : ∀ alternative ∈ draft.alternatives, alternative.name ∉ repetitions.map (·.2)

variable {draft : GrammarDraft} {grammar : Grammar}

/-- A collection of a grammar that was built holds the productions of its name. -/
theorem mem_productions_iff (built : draft.build = .ok grammar) :
    ∃ expansion, Expansion.ofAlternatives? draft.alternatives = .ok expansion ∧
      (∀ rule ∈ grammar.rules, ∀ name, .rule name ∈ rule.parts →
        name ∈ grammar.collections.map (·.name)) ∧
      ∀ collection ∈ grammar.collections, ∀ production,
        production ∈ collection.productions ↔ expansion.Has collection.name production := by
  obtain ⟨expansion, -, expanded, numbered, sound⟩ := build_cases built
  refine ⟨expansion, expanded, (Grammar.defined_of_fault? sound).2,
    fun collection member production => ?_⟩
  have kept : (collection.name, collection.productions) ∈ draft.kept grammar.start expansion := by
    rw [← map_productions_number 0 (draft.kept grammar.start expansion), ← numbered]
    exact List.mem_map_of_mem member
  have inside := (mem_kept_iff.mp kept).1
  constructor
  · exact fun among => ⟨_, inside, among⟩
  · rintro ⟨sides, known, among⟩
    have same : (collection.name, sides) = (collection.name, collection.productions) :=
      List.inj_on_of_nodup_map (Expansion.nodup_names expanded) known inside rfl
    rwa [← (Prod.mk.inj same).2]

/-- If no alternative has a name that begins as those of repetitions do, they keep to themselves. -/
theorem hygienic_of_build (built : draft.build = .ok grammar)
    (plain : ∀ alternative ∈ draft.alternatives, TreeBuilder.isRepetition alternative.name = false) :
    ∃ repetitions, draft.Hygienic grammar repetitions := by
  obtain ⟨expansion, expanded, closed, holds⟩ := mem_productions_iff built
  have faithful := Expansion.faithful_of_ofAlternatives? expanded
  have unmixed (alternative : Alternative) (member : alternative ∈ draft.alternatives) :
      alternative.name ∉ expansion.repetitions.map (·.2) := by
    intro named
    obtain ⟨⟨body, _⟩, known, rfl⟩ := List.mem_map.mp named
    have other := plain alternative member
    rw [TreeBuilder.isRepetition, faithful.sound.prefix_of_mem known] at other
    cases other
  refine ⟨expansion.repetitions, fun body => faithful.named_iff, faithful.sound.distinct,
    faithful.sound.numbered, fun entry _ rule known member => closed rule known _ member, ?_, ?_,
    unmixed⟩
  · rintro ⟨body, _⟩ known collection member rfl production
    rw [holds collection member, faithful.has_iff]
    constructor
    · intro origin
      cases origin with
      | alternative among named _ =>
        exact absurd (List.mem_map_of_mem known) (named ▸ unmixed _ among)
      | once named spelled =>
        obtain rfl := faithful.sound.body_inj named known
        exact ⟨production, spelled, .inl rfl⟩
      | again named spelled =>
        obtain rfl := faithful.sound.body_inj named known
        exact ⟨_, spelled, .inr rfl⟩
    · rintro ⟨sequence, spelled, rfl | rfl⟩
      · exact .once known spelled
      · exact .again known spelled
  · intro collection member unnamed production
    rw [holds collection member, faithful.has_iff]
    constructor
    · intro origin
      cases origin with
      | alternative among named spelled => exact ⟨_, among, named, spelled⟩
      | once named _ => exact absurd (List.mem_map_of_mem named) unnamed
      | again named _ => exact absurd (List.mem_map_of_mem named) unnamed
    · rintro ⟨alternative, among, named, spelled⟩
      exact .alternative among named spelled

/-- The repetition in a list keeps to itself. -/
theorem hygienic_lists : ∃ grammar, lists.build = .ok grammar ∧
    (∀ alternative ∈ lists.alternatives, TreeBuilder.isRepetition alternative.name = false) ∧
    ∃ repetitions, lists.Hygienic grammar repetitions := by
  obtain ⟨grammar, built⟩ := exists_build_lists
  have plain : ∀ alternative ∈ lists.alternatives,
      TreeBuilder.isRepetition alternative.name = false := by decide
  exact ⟨grammar, built, plain, hygienic_of_build built plain⟩

/-! ### A name that is taken -/

/-- A repetition, and an alternative that has the name of the repetition. -/
def taken : GrammarDraft where
  alternatives := [⟨"Goal", [.repeated [.token .identifier], .token .semicolon]⟩,
    ⟨"ZOM_1", [.token .comma]⟩]
  prune := true

def takenExpansion : Expansion where
  productions := [
    ("ZOM_1", [[.token .identifier], [.rule "ZOM_1", .token .identifier], [.token .comma]]),
    ("Goal", [[.token .semicolon], [.rule "ZOM_1", .token .semicolon]])]
  repetitions := [([.token .identifier], "ZOM_1")]

theorem expansion_taken : Expansion.ofAlternatives? taken.alternatives = .ok takenExpansion := rfl

private theorem eq_of_refers_taken {name other : String}
    (refers : Refers takenExpansion.productions name other) : other = "ZOM_1" := by
  obtain ⟨sides, member, inside⟩ := refers
  have all : ∀ entry ∈ takenExpansion.productions, ∀ other ∈ references entry.2,
      other = "ZOM_1" := by decide
  exact all _ member other inside

private theorem defined_taken (name other : String)
    (refers : Refers takenExpansion.productions name other) :
    other ∈ takenExpansion.productions.map (·.1) := by
  rw [eq_of_refers_taken refers]
  decide

/-- An alternative that has the name of a repetition is taken for one of its right sides. -/
theorem not_hygienic_taken : ∃ grammar, taken.build = .ok grammar ∧
    ∀ repetitions, ¬ taken.Hygienic grammar repetitions := by
  obtain ⟨grammar, built, -, numbered⟩ :=
    exists_build_of_prune rfl rfl expansion_taken (by decide) (by decide) defined_taken
  refine ⟨grammar, built, fun repetitions hygienic => ?_⟩
  -- The only body that is repeated has the first of the names.
  obtain ⟨name, known⟩ := (hygienic.bodies [.token .identifier]).mpr (by decide)
  obtain ⟨⟨body, first⟩, rest, rfl⟩ :=
    List.exists_cons_of_ne_nil (List.ne_nil_of_mem known)
  have numbers := hygienic.numbered
  rw [List.length_cons, List.range_succ_eq_map, List.map_cons, List.map_cons] at numbers
  obtain rfl : first = "ZOM_1" := (List.cons.inj numbers).1
  have bodies : ∀ body ∈ taken.alternatives.flatMap fun alternative =>
      rowBodies alternative.elements, body = [.token .identifier] := by decide
  obtain rfl := bodies body ((hygienic.bodies body).mp ⟨_, List.mem_cons_self⟩)
  -- Its collection holds what the alternative of that name spells as well.
  have reached : "ZOM_1" ∈ reachable "Goal" takenExpansion.productions :=
    reachable_closed (by decide) defined_taken (start_mem_reachable _ _)
      (show Refers takenExpansion.productions "Goal" "ZOM_1" from
        ⟨_, List.mem_cons_of_mem _ List.mem_cons_self, by decide⟩)
  have kept : ("ZOM_1", [[.token .identifier], [.rule "ZOM_1", .token .identifier],
      [.token .comma]]) ∈ taken.kept "Goal" takenExpansion :=
    (mem_kept_of_prune rfl).mpr ⟨List.mem_cons_self, reached⟩
  rw [← map_productions_number 0 (taken.kept "Goal" takenExpansion), ← numbered] at kept
  obtain ⟨collection, member, same⟩ := List.mem_map.mp kept
  obtain ⟨named, sides⟩ := Prod.mk.inj same
  obtain ⟨sequence, spelled, alone | behind⟩ :=
    (hygienic.repeats _ List.mem_cons_self collection member named [.token .comma]).mp
      (by simp [sides])
  · subst alone
    cases spelled
  · cases behind

end GrammarDraft

end JavaFrontend
