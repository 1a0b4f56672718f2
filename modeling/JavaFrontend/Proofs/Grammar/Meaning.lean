import JavaFrontend.Proofs.Grammar.Expansion
import JavaFrontend.Reduction.Builder

/-!
What alternatives mean, read with `[ ... ]` as zero or one occurrence of a group and `{ ... }` as
any number of them (`Means`). Expansion preserves it: with the plain rules of a grammar that was
built, a name derives exactly what one of its alternatives means (`generates_iff_means`).
-/

namespace JavaFrontend

open Element

/-- The kinds are among those that the elements stand for: each token for itself, each name for
what one of its alternatives stands for, an optional group for one occurrence of its body or none,
and a repeated group for any number of them. -/
inductive Means (alternatives : List Alternative) : List Element → List Kind → Prop where
  | nil : Means alternatives [] []
  | token (kind : Kind) {elements : List Element} {kinds : List Kind}
      (rest : Means alternatives elements kinds) :
    Means alternatives (.token kind :: elements) (kind :: kinds)
  | rule {alternative : Alternative} {elements : List Element} {inner kinds : List Kind}
      (member : alternative ∈ alternatives)
      (inside : Means alternatives alternative.elements inner)
      (rest : Means alternatives elements kinds) :
    Means alternatives (.rule alternative.name :: elements) (inner ++ kinds)
  | absent (body : List Element) {elements : List Element} {kinds : List Kind}
      (rest : Means alternatives elements kinds) :
    Means alternatives (.optional body :: elements) kinds
  | present {body elements : List Element} {inner kinds : List Kind}
      (inside : Means alternatives body inner) (rest : Means alternatives elements kinds) :
    Means alternatives (.optional body :: elements) (inner ++ kinds)
  | times {body elements : List Element} {kinds : List Kind} (occurrences : List (List Kind))
      (each : ∀ inner ∈ occurrences, Means alternatives body inner)
      (rest : Means alternatives elements kinds) :
    Means alternatives (.repeated body :: elements) (occurrences.flatten ++ kinds)

theorem Means.append {alternatives : List Alternative} {front back : List Element}
    {before behind : List Kind} (first : Means alternatives front before)
    (rest : Means alternatives back behind) :
    Means alternatives (front ++ back) (before ++ behind) := by
  induction first with
  | nil => exact rest
  | token kind _ ih => exact .token kind ih
  | rule member inside _ _ ih =>
    rw [List.append_assoc]
    exact .rule member inside ih
  | absent body _ ih => exact .absent body ih
  | present inside _ _ ih =>
    rw [List.append_assoc]
    exact .present inside ih
  | times occurrences each _ _ ih =>
    rw [List.append_assoc]
    exact .times occurrences each ih

/-- The elements are those of an alternative for the name. -/
theorem means_name {alternatives : List Alternative} {name : String} {elements : List Element}
    {kinds : List Kind} (member : ⟨name, elements⟩ ∈ alternatives)
    (inside : Means alternatives elements kinds) : Means alternatives [.rule name] kinds := by
  rw [← List.append_nil kinds]
  exact .rule member inside .nil

/-- The kinds are any number of occurrences of the body. -/
def Occurs (alternatives : List Alternative) (body : List Element) (kinds : List Kind) : Prop :=
  ∃ occurrences : List (List Kind),
    (∀ inner ∈ occurrences, Means alternatives body inner) ∧ occurrences.flatten = kinds

namespace Occurs

variable {alternatives : List Alternative} {body elements : List Element} {kinds inner : List Kind}

theorem nil : Occurs alternatives body [] := ⟨[], by simp, rfl⟩

theorem cons (first : Means alternatives body inner) (others : Occurs alternatives body kinds) :
    Occurs alternatives body (inner ++ kinds) := by
  obtain ⟨occurrences, each, rfl⟩ := others
  exact ⟨inner :: occurrences, List.forall_mem_cons.mpr ⟨first, each⟩, rfl⟩

theorem repeated (occurs : Occurs alternatives body inner)
    (rest : Means alternatives elements kinds) :
    Means alternatives (.repeated body :: elements) (inner ++ kinds) := by
  obtain ⟨occurrences, each, rfl⟩ := occurs
  exact .times occurrences each rest

end Occurs

/-- The kinds are among those that one of the alternatives for the name stands for. -/
def NameMeans (alternatives : List Alternative) (name : String) (kinds : List Kind) : Prop :=
  ∃ alternative ∈ alternatives, alternative.name = name ∧
    Means alternatives alternative.elements kinds

variable {alternatives : List Alternative} {repetitions : Repetitions} {elements : List Element}
  {production first second : Production} {kinds : List Kind} {name : String}

/-! ### What parts mean -/

/-- The part stands for the kinds: a token for its own, and a name for what one of its alternatives
means or, if a repetition has it, for occurrences of the body. -/
inductive PartMeans (alternatives : List Alternative) (repetitions : Repetitions) :
    Part → List Kind → Prop where
  | token (kind : Kind) : PartMeans alternatives repetitions (.token kind) [kind]
  | name {name : String} {kinds : List Kind} (means : NameMeans alternatives name kinds) :
    PartMeans alternatives repetitions (.rule name) kinds
  | times {body : List Element} {name : String} (named : (body, name) ∈ repetitions)
      (occurrences : List (List Kind))
      (each : ∀ inner ∈ occurrences, Means alternatives body inner) :
    PartMeans alternatives repetitions (.rule name) occurrences.flatten

theorem PartMeans.name_means (part : PartMeans alternatives repetitions (.rule name) kinds)
    (unnamed : ∀ body, (body, name) ∉ repetitions) : NameMeans alternatives name kinds := by
  cases part with
  | name means => exact means
  | times named => exact absurd named (unnamed _)

/-- The parts stand for the kinds one after the other. -/
inductive RowMeans (alternatives : List Alternative) (repetitions : Repetitions) :
    Production → List Kind → Prop where
  | nil : RowMeans alternatives repetitions [] []
  | cons {part : Part} {parts : Production} {inner kinds : List Kind}
      (head : PartMeans alternatives repetitions part inner)
      (tail : RowMeans alternatives repetitions parts kinds) :
    RowMeans alternatives repetitions (part :: parts) (inner ++ kinds)

theorem RowMeans.split (row : RowMeans alternatives repetitions (first ++ second) kinds) :
    ∃ left right, kinds = left ++ right ∧ RowMeans alternatives repetitions first left ∧
      RowMeans alternatives repetitions second right := by
  induction first generalizing kinds with
  | nil => exact ⟨[], kinds, rfl, .nil, row⟩
  | cons part first ih =>
    cases row with
    | @cons _ _ inner _ head tail =>
      obtain ⟨left, right, rfl, before, behind⟩ := ih tail
      exact ⟨inner ++ left, right, by rw [List.append_assoc], .cons head before, behind⟩

/-- No alternative has the name of a repetition or refers to one, and no two repetitions have one
name. -/
structure Apart (alternatives : List Alternative) (repetitions : Repetitions) : Prop where
  defined : ∀ alternative ∈ alternatives, ∀ body, (body, alternative.name) ∉ repetitions
  referred : ∀ alternative ∈ alternatives, ∀ name ∈ bodyNames alternative.elements,
    ∀ body, (body, name) ∉ repetitions
  unique : ∀ body other name, (body, name) ∈ repetitions → (other, name) ∈ repetitions →
    body = other

namespace Apart

variable (apart : Apart alternatives repetitions)
include apart

theorem times_of_name {body : List Element} (named : (body, name) ∈ repetitions)
    (part : PartMeans alternatives repetitions (.rule name) kinds) :
    ∃ occurrences : List (List Kind), kinds = occurrences.flatten ∧
      ∀ inner ∈ occurrences, Means alternatives body inner := by
  cases part with
  | name means =>
    obtain ⟨alternative, member, rfl, -⟩ := means
    exact absurd named (apart.defined alternative member body)
  | times other occurrences each =>
    exact ⟨occurrences, rfl, apart.unique _ _ _ other named ▸ each⟩

/-- What a sequence stands for, the elements that spell it mean. -/
theorem means_of_spells (spelled : Spells repetitions elements production)
    (plain : ∀ name ∈ bodyNames elements, ∀ body, (body, name) ∉ repetitions)
    (row : RowMeans alternatives repetitions production kinds) :
    Means alternatives elements kinds := by
  induction spelled generalizing kinds with
  | nil =>
    cases row
    exact .nil
  | token kind _ ih =>
    cases row with
    | cons head tail =>
      cases head
      exact .token kind (ih (fun name member => plain name (List.mem_append_right _ member)) tail)
  | rule name _ ih =>
    obtain ⟨here, later⟩ := List.forall_mem_append.mp plain
    cases row with
    | cons head tail =>
      obtain ⟨alternative, member, rfl, inside⟩ :=
        head.name_means (here name (List.mem_singleton_self _))
      exact .rule member inside (ih later tail)
  | skip body _ ih =>
    exact .absent body (ih (fun name member => plain name (List.mem_append_right _ member)) row)
  | take _ _ insideIh restIh =>
    obtain ⟨here, later⟩ := List.forall_mem_append.mp plain
    obtain ⟨left, right, rfl, before, behind⟩ := row.split
    exact .present (insideIh here before) (restIh later behind)
  | never body _ ih =>
    exact .times [] (by simp)
      (ih (fun name member => plain name (List.mem_append_right _ member)) row)
  | some named _ ih =>
    cases row with
    | cons head tail =>
      obtain ⟨occurrences, rfl, each⟩ := apart.times_of_name named head
      exact .times occurrences each
        (ih (fun name member => plain name (List.mem_append_right _ member)) tail)

end Apart

/-! ### What the rules derive, the alternatives mean -/

namespace Expansion

variable {expansion : Expansion} {grammar : Grammar} {parts : Production}

theorem Sound.plain (sound : expansion.Sound alternatives)
    (apart : Apart alternatives expansion.repetitions) {body : List Element}
    (named : (body, name) ∈ expansion.repetitions) :
    ∀ name ∈ bodyNames body, ∀ other, (other, name) ∉ expansion.repetitions := by
  obtain ⟨alternative, member, inside⟩ := List.mem_flatMap.mp (sound.inside _ named)
  exact fun name among =>
    apart.referred alternative member name (bodyNames_of_mem_rowBodies _ inside among)

/-- What stands for kinds by rules that come from the alternatives means them. -/
theorem Sound.row_means (sound : expansion.Sound alternatives)
    (apart : Apart alternatives expansion.repetitions)
    (rules : ∀ rule ∈ grammar.rules, expansion.Has rule.name rule.parts)
    (matched : grammar.Matches parts kinds) :
    RowMeans alternatives expansion.repetitions parts kinds := by
  induction matched with
  | nil => exact .nil
  | token kind _ ih => exact .cons (.token kind) ih
  | @rule rule _ inner _ known _ _ bodyIh restIh =>
    refine .cons ?_ restIh
    obtain ⟨name, parts⟩ := rule
    cases sound.origins name parts (rules _ known) with
    | @alternative alternative _ member named spelled =>
      exact .name ⟨alternative, member, named,
        apart.means_of_spells spelled (apart.referred alternative member) bodyIh⟩
    | once named spelled =>
      have inside := apart.means_of_spells spelled (sound.plain apart named) bodyIh
      have one := PartMeans.times named [inner] (by simpa using inside)
      rwa [List.flatten_singleton] at one
    | again named spelled =>
      -- The occurrences before the last one are what the name itself stands for.
      cases bodyIh with
      | @cons _ _ before last head tail =>
        obtain ⟨occurrences, rfl, each⟩ := apart.times_of_name named head
        have inside := apart.means_of_spells spelled (sound.plain apart named) tail
        have more := PartMeans.times named (occurrences ++ [last])
          (List.forall_mem_append.mpr ⟨each, by simpa using inside⟩)
        rwa [List.flatten_append, List.flatten_singleton] at more

/-! ### What the alternatives mean, the rules derive -/

/-- Occurrences of a body, if there are any, match the name of the repetition. -/
theorem Faithful.matches_times (faithful : expansion.Faithful alternatives)
    (rules : ∀ rule : Rule, expansion.Has rule.name rule.parts → rule ∈ grammar.rules)
    {body : List Element} (named : (body, name) ∈ expansion.repetitions)
    {occurrences : List (List Kind)} (some : occurrences ≠ [])
    (each : ∀ inner ∈ occurrences, ∃ production,
      Spells expansion.repetitions body production ∧ grammar.Matches production inner) :
    grammar.Matches [.rule name] occurrences.flatten := by
  induction occurrences using List.reverseRecOn with
  | nil => exact absurd rfl some
  | append_singleton occurrences last ih =>
    obtain ⟨before, here⟩ := List.forall_mem_append.mp each
    obtain ⟨production, spelled, matched⟩ := here last (List.mem_singleton_self _)
    rw [List.flatten_append, List.flatten_singleton]
    by_cases none : occurrences = []
    · subst none
      have known := rules ⟨name, production⟩ (faithful.has_iff.mpr (.once named spelled))
      simpa using Grammar.Matches.rule known matched .nil
    · have known := rules ⟨name, .rule name :: production⟩
        (faithful.has_iff.mpr (.again named spelled))
      have row := (ih none before).append matched
      simpa using Grammar.Matches.rule known row .nil

/-- What elements mean matches one of the sequences that they spell. -/
theorem Faithful.matches_of_means (faithful : expansion.Faithful alternatives)
    (rules : ∀ rule : Rule, expansion.Has rule.name rule.parts → rule ∈ grammar.rules)
    (means : Means alternatives elements kinds)
    (named : ∀ body ∈ rowOuter elements, ∃ name, (body, name) ∈ expansion.repetitions) :
    ∃ production, Spells expansion.repetitions elements production ∧
      grammar.Matches production kinds := by
  induction means with
  | nil => exact ⟨[], .nil, .nil⟩
  | token kind _ ih =>
    obtain ⟨production, spelled, matched⟩ := ih (by simpa [rowOuter, outer] using named)
    exact ⟨_, .token kind spelled, .token kind matched⟩
  | @rule alternative _ _ _ member _ _ insideIh restIh =>
    obtain ⟨side, inside, body⟩ := insideIh (faithful.covers alternative member).named
    obtain ⟨production, spelled, matched⟩ := restIh (by simpa [rowOuter, outer] using named)
    have known := rules ⟨alternative.name, side⟩
      (faithful.has_iff.mpr (.alternative member rfl inside))
    exact ⟨_, .rule _ spelled, .rule known body matched⟩
  | absent body _ ih =>
    obtain ⟨_, later⟩ := List.forall_mem_append.mp named
    obtain ⟨production, spelled, matched⟩ := ih later
    exact ⟨production, .skip body spelled, matched⟩
  | present _ _ insideIh restIh =>
    obtain ⟨here, later⟩ := List.forall_mem_append.mp named
    obtain ⟨inner, inside, body⟩ := insideIh here
    obtain ⟨production, spelled, matched⟩ := restIh later
    exact ⟨_, .take inside spelled, body.append matched⟩
  | @times body _ _ occurrences _ _ eachIh restIh =>
    obtain ⟨here, later⟩ := List.forall_mem_append.mp named
    obtain ⟨production, spelled, matched⟩ := restIh later
    obtain ⟨name, known⟩ := here body (List.mem_singleton_self _)
    by_cases none : occurrences = []
    · subst none
      exact ⟨production, .never body spelled, matched⟩
    · have each (inner : List Kind) (among : inner ∈ occurrences) :=
        eachIh inner among (faithful.repeats _ known).named
      exact ⟨_, .some known spelled,
        (faithful.matches_times rules known none each).append matched⟩

end Expansion

/-! ### Grammars that were built -/

/-- Rules that are known and refer to nothing but names with collections, as the parts do, match the
parts without any other rules. -/
theorem Grammar.Matches.of_closed {whole grammar : Grammar} {parts : List Part}
    (matched : whole.Matches parts kinds) (known : String → Prop)
    (rules : ∀ rule ∈ whole.rules, known rule.name → rule ∈ grammar.rules)
    (closed : ∀ rule ∈ grammar.rules, ∀ name, .rule name ∈ rule.parts → known name)
    (within : ∀ name, .rule name ∈ parts → known name) : grammar.Matches parts kinds := by
  induction matched with
  | nil => exact .nil
  | token kind _ ih => exact .token kind (ih fun name member => within name (by simp [member]))
  | rule member _ _ bodyIh restIh =>
    have here := rules _ member (within _ List.mem_cons_self)
    exact .rule here (bodyIh (closed _ here))
      (restIh fun name member => within name (List.mem_cons_of_mem _ member))

namespace GrammarDraft

variable {draft : GrammarDraft} {grammar : Grammar}

/-- The grammar that was built has the productions of its names that the expansion has, and they
refer to nothing else. -/
theorem rules_of_build (built : draft.build = .ok grammar) :
    ∃ expansion, Expansion.ofAlternatives? draft.alternatives = .ok expansion ∧
      (∀ rule, rule ∈ grammar.rules ↔ expansion.Has rule.name rule.parts ∧
        rule.name ∈ grammar.collections.map (·.name)) ∧
      ∀ rule ∈ grammar.rules, ∀ name, .rule name ∈ rule.parts →
        name ∈ grammar.collections.map (·.name) := by
  obtain ⟨expansion, -, expanded, numbered, sound⟩ := build_cases built
  refine ⟨expansion, expanded, fun rule => ?_, (Grammar.defined_of_fault? sound).2⟩
  rw [mem_rules_iff numbered, numbered, map_name_number]
  constructor
  · rintro ⟨sides, member, among⟩
    obtain ⟨inside, named⟩ := mem_kept_iff.mp member
    exact ⟨⟨sides, inside, among⟩, named⟩
  · rintro ⟨⟨sides, inside, among⟩, named⟩
    exact ⟨sides, mem_kept_iff.mpr ⟨inside, named⟩, among⟩

/-- No name that the draft defines or refers to begins as those of repetitions do. -/
def Plain (draft : GrammarDraft) : Prop :=
  ∀ alternative ∈ draft.alternatives, ∀ name ∈ alternative.name :: bodyNames alternative.elements,
    TreeBuilder.isRepetition name = false

theorem Plain.apart (plain : draft.Plain) {expansion : Expansion}
    (sound : expansion.Sound draft.alternatives) :
    Apart draft.alternatives expansion.repetitions where
  defined alternative member body named := by
    have other := plain alternative member _ List.mem_cons_self
    rw [TreeBuilder.isRepetition, sound.prefix_of_mem named] at other
    cases other
  referred alternative member name among body named := by
    have other := plain alternative member name (List.mem_cons_of_mem _ among)
    rw [TreeBuilder.isRepetition, sound.prefix_of_mem named] at other
    cases other
  unique body other name := sound.body_inj

/-- Whatever its alternatives mean, a name that has a collection derives. -/
theorem generates_of_means (built : draft.build = .ok grammar)
    (collected : name ∈ grammar.collections.map (·.name))
    (means : NameMeans draft.alternatives name kinds) : grammar.Generates [.rule name] kinds := by
  obtain ⟨expansion, expanded, rules, closed⟩ := rules_of_build built
  have faithful := Expansion.faithful_of_ofAlternatives? expanded
  -- Nothing is left out of this grammar, so it matches all that the alternatives mean.
  let whole : Grammar :=
    { start := grammar.start, collections := number 0 expansion.productions, names := [] }
  have all (rule : Rule) : rule ∈ whole.rules ↔ expansion.Has rule.name rule.parts :=
    mem_rules_iff rfl
  have has (rule : Rule) : expansion.Has rule.name rule.parts → rule ∈ whole.rules :=
    (all rule).mpr
  obtain ⟨alternative, member, rfl, means⟩ := means
  obtain ⟨production, spelled, matched⟩ :=
    faithful.matches_of_means has means (faithful.covers alternative member).named
  have known := has ⟨alternative.name, production⟩
    (faithful.has_iff.mpr (.alternative member rfl spelled))
  rw [← Grammar.matches_iff_derives]
  refine Grammar.Matches.of_closed (Grammar.matches_single_rule.mpr ⟨_, known, rfl, matched⟩)
    (· ∈ grammar.collections.map (·.name)) (fun rule inside named => ?_) closed
    (by simpa using collected)
  exact (rules rule).mpr ⟨(all rule).mp inside, named⟩

/-- Expansion preserves the language. If no name begins as those of repetitions do, each name that
has alternatives and a collection derives, with the plain rules of the grammar that was built,
exactly what its alternatives mean. -/
theorem generates_iff_means (built : draft.build = .ok grammar) (plain : draft.Plain)
    (collected : name ∈ grammar.collections.map (·.name))
    (defined : name ∈ draft.alternatives.map (·.name)) :
    grammar.Generates [.rule name] kinds ↔ NameMeans draft.alternatives name kinds := by
  refine ⟨fun derived => ?_, generates_of_means built collected⟩
  obtain ⟨expansion, expanded, rules, -⟩ := rules_of_build built
  have sound := (Expansion.faithful_of_ofAlternatives? expanded).sound
  have apart := plain.apart sound
  have row := sound.row_means apart (fun rule known => ((rules rule).mp known).1)
    (Grammar.matches_iff_derives.mpr derived)
  cases row with
  | cons head tail =>
    cases tail
    rw [List.append_nil]
    obtain ⟨alternative, member, rfl⟩ := List.mem_map.mp defined
    exact head.name_means (apart.defined alternative member)

/-- Identifiers with commas between them, and perhaps a semicolon behind them. -/
def lists : GrammarDraft where
  alternatives := [⟨"List", [.token .identifier, .repeated [.token .comma, .token .identifier],
    .optional [.token .semicolon]]⟩]
  prune := true

theorem exists_build_lists : ∃ grammar, lists.build = .ok grammar :=
  exists_build_of_solid rfl rfl (by decide) (by decide) (by decide)

/-- Three identifiers and a semicolon are a list. -/
theorem generates_list : ∃ grammar, lists.build = .ok grammar ∧ lists.Plain ∧
    "List" ∈ grammar.collections.map (·.name) ∧ "List" ∈ lists.alternatives.map (·.name) ∧
    grammar.Generates [.rule "List"]
      [.identifier, .comma, .identifier, .comma, .identifier, .semicolon] := by
  obtain ⟨grammar, built⟩ := exists_build_lists
  have plain : lists.Plain := by
    unfold Plain
    decide
  have collected : "List" ∈ grammar.collections.map (·.name) := by
    obtain ⟨_, named, -, -, sound⟩ := build_cases built
    have start : "List" = grammar.start := Option.some.inj named
    rw [start]
    exact (Grammar.defined_of_fault? sound).1
  have defined : "List" ∈ lists.alternatives.map (·.name) := by decide
  have item : Means lists.alternatives [.token .comma, .token .identifier] [.comma, .identifier] :=
    .token .comma (.token .identifier .nil)
  have means : Means lists.alternatives _
      (.identifier :: ([[.comma, .identifier], [.comma, .identifier]].flatten ++ [.semicolon])) :=
    .token .identifier (.times _ (by simpa using item)
      (.present (.token .semicolon .nil) .nil))
  exact ⟨grammar, built, plain, collected, defined,
    (generates_iff_means built plain collected defined).mpr
      ⟨_, List.mem_singleton_self _, rfl, means⟩⟩

end GrammarDraft

end JavaFrontend
