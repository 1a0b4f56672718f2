import JavaFrontend.Grammar.Draft
import JavaFrontend.Grammar.Prediction
import JavaFrontend.Proofs.Grammar.Derivation
import JavaFrontend.Proofs.Grammar.Reachability

/-!
What holds of every grammar that was built from a draft: its collections have distinct names, their
rules are numbered through in order, and no rule is empty. It follows that predictions answer with
exactly the numbers of the rules of a name.
-/

namespace JavaFrontend

/-- What every use of a grammar relies on. -/
structure Grammar.WellFormed (grammar : Grammar) : Prop where
  distinct : (grammar.collections.map (·.name)).Nodup
  numbered : grammar.collections = GrammarDraft.number 0 grammar.productions
  nonempty : ∀ rule ∈ grammar.rules, rule.parts ≠ []

/-! ### What expansion keeps -/

namespace ExpansionM

variable {β γ : Type} {P : List (String × List Production) → Prop}

/-- Whenever the computation succeeds, the productions it leaves have the property if those it
began with had it. -/
def Keeps (P : List (String × List Production) → Prop) (computation : ExpansionM β) : Prop :=
  ∀ before value after, computation before = .ok (value, after) →
    P before.productions → P after.productions

theorem run_bind {first : ExpansionM β} {next : β → ExpansionM γ}
    {before after : Expansion} {value : γ} (ran : (first >>= next) before = .ok (value, after)) :
    ∃ result between, first before = .ok (result, between) ∧
      next result between = .ok (value, after) := by
  change (first before >>= fun (result, between) => next result between) = _ at ran
  cases head : first before with
  | error reason =>
    rw [head] at ran
    cases ran
  | ok pair =>
    rw [head] at ran
    exact ⟨pair.1, pair.2, rfl, ran⟩

theorem keeps_pure (value : β) : Keeps P (pure value : ExpansionM β) := by
  rintro before _ _ ⟨⟩ holds
  exact holds

theorem keeps_throw (reason : GrammarError) : Keeps P (throw reason : ExpansionM β) := by
  rintro before _ _ ⟨⟩

theorem keeps_bind {first : ExpansionM β} {next : β → ExpansionM γ} (head : Keeps P first)
    (tail : ∀ value, Keeps P (next value)) : Keeps P (first >>= next) := by
  intro before value after ran holds
  obtain ⟨result, between, headRan, tailRan⟩ := run_bind ran
  exact tail result between value after tailRan (head before result between headRan holds)

theorem keeps_get : Keeps P (get : ExpansionM Expansion) := by
  rintro before _ _ ⟨⟩ holds
  exact holds

/-- Inserting a production keeps the property. -/
def Stable (P : List (String × List Production) → Prop) : Prop :=
  ∀ name production productions, P productions → P (Expansion.insert name production productions)

private theorem add_each (stable : Stable P) (name : String) (sequences : List Production)
    (expansion : Expansion) (holds : P expansion.productions) :
    P (sequences.foldl (fun e p => e.add name p) expansion).productions := by
  induction sequences generalizing expansion with
  | nil => exact holds
  | cons sequence sequences ih => exact ih _ (stable name sequence _ holds)

theorem keeps_addAll (stable : Stable P) (name : String)
    (productionsOf : Production → List Production) (sequences : List Production) :
    Keeps P (addAll name productionsOf sequences) := by
  induction sequences with
  | nil => exact keeps_pure ()
  | cons sequence sequences ih =>
    have added : Keeps P (do
        modify fun expansion =>
          (productionsOf sequence).foldl (fun e p => e.add name p) expansion
        addAll name productionsOf sequences) := by
      refine keeps_bind ?_ fun _ => ih
      rintro before _ _ ⟨⟩ holds
      exact add_each stable name _ before holds
    unfold addAll
    dsimp only
    split
    · exact keeps_bind (keeps_throw _) fun _ => added
    · exact added

mutual

theorem keeps_appendElement (stable : Stable P) (sequences : List Production) :
    (element : Element) → Keeps P (appendElement sequences element)
  | .token kind => keeps_pure _
  | .rule name => keeps_pure _
  | .optional body =>
    keeps_bind (keeps_appendElements stable [[]] body) fun _ => keeps_pure _
  | .repeated body => by
    unfold appendElement
    refine keeps_bind keeps_get fun expansion => ?_
    dsimp only
    split
    · exact keeps_bind (keeps_pure _) fun _ => keeps_pure _
    · refine keeps_bind ?_ fun name => keeps_bind (keeps_appendElements stable [[]] body) fun _ =>
        keeps_bind (keeps_addAll stable name _ _) fun _ =>
          keeps_bind (keeps_pure _) fun _ => keeps_pure _
      rintro before _ _ ⟨⟩ holds
      exact holds

theorem keeps_appendElements (stable : Stable P) (sequences : List Production) :
    (elements : List Element) → Keeps P (appendElements sequences elements)
  | [] => keeps_pure _
  | element :: rest =>
    keeps_bind (keeps_appendElement stable sequences element) fun sequences =>
      keeps_appendElements stable sequences rest

end

theorem keeps_addAlternatives (stable : Stable P) (alternatives : List Alternative) :
    Keeps P (alternatives.forM addAlternative) := by
  induction alternatives with
  | nil => exact keeps_pure ()
  | cons alternative alternatives ih =>
    exact keeps_bind (keeps_bind (keeps_appendElements stable [[]] _)
      fun _ => keeps_addAll stable _ _ _) fun _ => ih

theorem ofAlternatives?_eq_ok {alternatives : List Alternative} {expansion : Expansion} :
    Expansion.ofAlternatives? alternatives = .ok expansion ↔
      (alternatives.forM addAlternative) {} = .ok ((), expansion) := by
  have run : Expansion.ofAlternatives? alternatives =
      ((alternatives.forM addAlternative) {} >>= fun pair => pure pair.2) := rfl
  rw [run]
  cases (alternatives.forM addAlternative) {} with
  | error reason => exact iff_of_false nofun nofun
  | ok pair =>
    obtain ⟨⟨⟩, after⟩ := pair
    exact ⟨fun same => by cases same; rfl, fun same => by cases same; rfl⟩

/-- What holds of no productions and is kept whenever one is inserted holds of every expansion. -/
theorem expansion_induction (stable : Stable P) {alternatives : List Alternative}
    {expansion : Expansion} (expanded : Expansion.ofAlternatives? alternatives = .ok expansion)
    (empty : P []) : P expansion.productions :=
  keeps_addAlternatives stable alternatives {} () expansion (ofAlternatives?_eq_ok.mp expanded)
    empty

end ExpansionM

namespace Expansion

theorem map_fst_insert (name : String) (production : Production)
    (productions : List (String × List Production)) :
    (insert name production productions).map (·.1) =
      if name ∈ productions.map (·.1) then productions.map (·.1)
      else productions.map (·.1) ++ [name] := by
  induction productions with
  | nil => simp [insert]
  | cons entry rest ih =>
    obtain ⟨other, known⟩ := entry
    by_cases same : other = name
    · simp [insert, same]
    · have different : name ≠ other := fun eq => same eq.symm
      simp only [insert, same, ↓reduceIte, List.map_cons, ih, List.mem_cons, different, false_or]
      split <;> rfl

/-- Each name has one list of productions. -/
theorem nodup_names {alternatives : List Alternative} {expansion : Expansion}
    (expanded : ofAlternatives? alternatives = .ok expansion) :
    (expansion.productions.map (·.1)).Nodup := by
  refine ExpansionM.expansion_induction (P := fun productions => (productions.map (·.1)).Nodup)
    ?_ expanded List.nodup_nil
  intro name production productions distinct
  rw [map_fst_insert]
  split
  · exact distinct
  · rename_i fresh
    refine List.nodup_append.mpr ⟨distinct, List.nodup_singleton name, ?_⟩
    intro known member other single same
    exact fresh (List.mem_singleton.mp single ▸ same ▸ member)

end Expansion

/-! ### What building adds -/

namespace GrammarDraft

theorem map_name_number (first : Nat) (productions : List (String × List Production)) :
    (number first productions).map (·.name) = productions.map (·.1) := by
  induction productions generalizing first with
  | nil => rfl
  | cons entry rest ih => simp [number, ih]

theorem map_productions_number (first : Nat) (productions : List (String × List Production)) :
    (number first productions).map (fun collection => (collection.name, collection.productions)) =
      productions := by
  induction productions generalizing first with
  | nil => rfl
  | cons entry rest ih => simp [number, ih]

/-- The productions that the grammar of a draft has. -/
def kept (draft : GrammarDraft) (start : String) (expansion : Expansion) :
    List (String × List Production) :=
  if draft.prune then reachableOnly start expansion.productions else expansion.productions

theorem build_cases {draft : GrammarDraft} {grammar : Grammar}
    (built : draft.build = .ok grammar) :
    ∃ expansion, (draft.start <|> draft.alternatives.head?.map (·.name)) = some grammar.start ∧
      Expansion.ofAlternatives? draft.alternatives = .ok expansion ∧
      grammar.collections = number 0 (draft.kept grammar.start expansion) ∧
      grammar.fault? = none := by
  unfold build at built
  split at built
  · rename_i start named
    cases expanded : Expansion.ofAlternatives? draft.alternatives with
    | error reason =>
      rw [expanded] at built
      cases built
    | ok expansion =>
      rw [expanded] at built
      simp only [bind, Except.bind] at built
      split at built
      · cases built
      · rename_i sound
        cases built
        exact ⟨expansion, named, rfl, rfl, sound⟩
  · cases built

/-- A draft is built if what it describes is sound. -/
theorem build_of_sound {draft : GrammarDraft} {start : String} {expansion : Expansion}
    {grammar : Grammar}
    (named : (draft.start <|> draft.alternatives.head?.map (·.name)) = some start)
    (expanded : Expansion.ofAlternatives? draft.alternatives = .ok expansion)
    (same : { start, collections := number 0 (draft.kept start expansion),
              names := draft.mentioned expansion start } = grammar)
    (sound : grammar.fault? = none) : draft.build = .ok grammar := by
  subst same
  unfold build
  rw [named, expanded]
  dsimp only [bind, Except.bind]
  split
  · rename_i fault found
    exact absurd (sound.symm.trans found) nofun
  · rfl

private theorem kept_nodup {draft : GrammarDraft} {start : String} {expansion : Expansion}
    (distinct : (expansion.productions.map (·.1)).Nodup) :
    ((draft.kept start expansion).map (·.1)).Nodup := by
  unfold kept
  split
  · exact distinct.sublist (List.filter_sublist.map _)
  · exact distinct

/-- A grammar that was built is well formed. -/
theorem well_formed_of_build {draft : GrammarDraft} {grammar : Grammar}
    (built : draft.build = .ok grammar) : grammar.WellFormed := by
  obtain ⟨expansion, -, expanded, numbered, sound⟩ := build_cases built
  refine ⟨?_, ?_, ?_⟩
  · rw [numbered, map_name_number]
    exact kept_nodup (Expansion.nodup_names expanded)
  · rw [Grammar.productions, numbered, map_productions_number]
  · intro rule known empty
    unfold Grammar.fault? at sound
    split at sound
    · cases sound
    · have noEmptyRule : grammar.emptyRule? = none := by
        simp only [Option.orElse_eq_orElse, Option.orElse_eq_or, Option.or_eq_none_iff] at sound
        exact sound.2.1
      unfold Grammar.emptyRule? at noEmptyRule
      rw [Option.map_eq_none_iff, List.find?_eq_none] at noEmptyRule
      exact noEmptyRule rule (by simpa using known) (by simp [empty])

end GrammarDraft

/-! ### Grammars without faults -/

/-- A grammar is fit for use if its start and all names in its rules are defined, no rule is empty,
and all of it can be reached. -/
theorem Grammar.fault?_eq_none {grammar : Grammar}
    (begins : grammar.start ∈ grammar.collections.map (·.name))
    (defined : ∀ rule ∈ grammar.rules, ∀ name, .rule name ∈ rule.parts →
      name ∈ grammar.collections.map (·.name))
    (nonempty : ∀ rule ∈ grammar.rules, rule.parts ≠ [])
    (reached : ∀ name ∈ grammar.collections.map (·.name),
      name ∈ Reachability.reachable grammar.start grammar.productions) :
    grammar.fault? = none := by
  have noStart : ¬ (grammar.collection? grammar.start).isNone := by
    obtain ⟨collection, member, same⟩ := List.mem_map.mp begins
    simp only [collection?, Option.isNone_iff_eq_none, List.find?_eq_none, not_forall]
    exact ⟨collection, member, by simp [same]⟩
  have noReference : grammar.undefinedReference? = none := by
    simp only [undefinedReference?, List.findSome?_eq_none_iff, Array.mem_toList_iff]
    intro rule known part member
    cases part with
    | token kind => rfl
    | rule other => simpa [Part.ruleName?] using defined rule known other member
  have noEmpty : grammar.emptyRule? = none := by
    simp only [emptyRule?, Option.map_eq_none_iff, List.find?_eq_none, Array.mem_toList_iff]
    intro rule known
    simpa using nonempty rule known
  have noUnreachable : grammar.unreachable? = none := by
    simp only [unreachable?, Option.map_eq_none_iff, List.find?_eq_none]
    intro collection member
    simpa using reached collection.name (List.mem_map_of_mem member)
  rw [fault?, if_neg noStart, noReference, noEmpty, noUnreachable]
  rfl

/-- If no fault is found in its start and its references, its start and all names in its rules are
defined. -/
theorem Grammar.defined_of_undefinedReference? {grammar : Grammar}
    (begins : ¬ (grammar.collection? grammar.start).isNone)
    (sound : grammar.undefinedReference? = none) :
    grammar.start ∈ grammar.collections.map (·.name) ∧
      ∀ rule ∈ grammar.rules, ∀ name, .rule name ∈ rule.parts →
        name ∈ grammar.collections.map (·.name) := by
  refine ⟨?_, fun rule known name member => ?_⟩
  · simp only [collection?, Option.isNone_iff_eq_none, List.find?_eq_none, not_forall] at begins
    obtain ⟨collection, among, same⟩ := begins
    exact List.mem_map.mpr ⟨collection, among, by simpa using same⟩
  · simp only [undefinedReference?, List.findSome?_eq_none_iff, Array.mem_toList_iff] at sound
    simpa [Part.ruleName?] using sound rule known _ member

/-- And if it is, its start and all names in its rules are defined. -/
theorem Grammar.defined_of_fault? {grammar : Grammar} (sound : grammar.fault? = none) :
    grammar.start ∈ grammar.collections.map (·.name) ∧
      ∀ rule ∈ grammar.rules, ∀ name, .rule name ∈ rule.parts →
        name ∈ grammar.collections.map (·.name) := by
  unfold fault? at sound
  split at sound
  · cases sound
  next begins =>
  simp only [Option.orElse_eq_orElse, Option.orElse_eq_or, Option.or_eq_none_iff] at sound
  exact defined_of_undefinedReference? begins sound.1

namespace GrammarDraft

open Reachability

variable {draft : GrammarDraft} {start name : String} {rows : List Production}
  {expansion : Expansion} {grammar : Grammar}

/-- The rules of a grammar that was built are the productions that were kept. -/
theorem mem_rules_iff {productions : List (String × List Production)}
    (numbered : grammar.collections = number 0 productions) {rule : Rule} :
    rule ∈ grammar.rules ↔ ∃ sides, (rule.name, sides) ∈ productions ∧ rule.parts ∈ sides := by
  have same := map_productions_number 0 productions
  rw [← numbered] at same
  rw [grammar.rules_eq, ← Array.mem_toList_iff, List.mem_flatMap, ← same]
  constructor
  · rintro ⟨collection, known, member⟩
    obtain ⟨parts, among, rfl⟩ := List.mem_map.mp member
    exact ⟨collection.productions, List.mem_map_of_mem known, among⟩
  · rintro ⟨sides, member, among⟩
    obtain ⟨collection, known, same⟩ := List.mem_map.mp member
    obtain ⟨named, rfl⟩ := Prod.mk.inj same
    exact ⟨collection, known, List.mem_map.mpr ⟨rule.parts, among, by rw [named]⟩⟩

/-- A draft whose only name is its start is built if none of its rows is empty. -/
theorem build_single
    (named : (draft.start <|> draft.alternatives.head?.map (·.name)) = some name)
    (whole : draft.prune = false)
    (same : { start := name, collections := number 0 [(name, rows)],
              names := draft.mentioned { productions := [(name, rows)] } name } = grammar)
    (expanded : Expansion.ofAlternatives? draft.alternatives =
      .ok { productions := [(name, rows)] })
    (filled : ∀ row ∈ rows, row ≠ [])
    (closed : ∀ row ∈ rows, ∀ part ∈ row, part.ruleName? = none ∨ part.ruleName? = some name) :
    draft.build = .ok grammar := by
  refine build_of_sound named expanded (same ▸ by simp [kept, whole]) ?_
  have start : grammar.start = name := by rw [← same]
  have numbered : grammar.collections = number 0 [(name, rows)] := by rw [← same]
  have names : grammar.collections.map (·.name) = [name] := by rw [numbered, map_name_number]; rfl
  have rules {rule : Rule} (known : rule ∈ grammar.rules) : rule.parts ∈ rows := by
    obtain ⟨sides, member, among⟩ := (mem_rules_iff numbered).mp known
    cases List.mem_singleton.mp member
    exact among
  refine Grammar.fault?_eq_none (by simp [names, start]) (fun rule known other member => ?_)
    (fun rule known => filled rule.parts (rules known)) fun other member => ?_
  · rcases closed rule.parts (rules known) _ member with none | own
    · cases none
    · cases own
      simp [names]
  · obtain rfl : other = name := by simpa [names] using member
    rw [start]
    exact start_mem_reachable _ _

/-! ### Grammars without the unreachable -/

theorem mem_kept_of_prune {entry : String × List Production} (pruned : draft.prune) :
    entry ∈ draft.kept start expansion ↔
      entry ∈ expansion.productions ∧ entry.1 ∈ reachable start expansion.productions := by
  rw [kept, if_pos pruned, reachableOnly, List.mem_filter]
  exact Iff.rfl

/-- What is kept of a name is all there is of it. -/
theorem mem_kept_iff {entry : String × List Production} : entry ∈ draft.kept start expansion ↔
    entry ∈ expansion.productions ∧ entry.1 ∈ (draft.kept start expansion).map (·.1) := by
  constructor
  · intro member
    refine ⟨?_, List.mem_map_of_mem member⟩
    unfold kept at member
    split at member
    · exact (List.mem_filter.mp member).1
    · exact member
  · rintro ⟨member, named⟩
    obtain ⟨other, among, same⟩ := List.mem_map.mp named
    by_cases pruned : draft.prune
    · rw [mem_kept_of_prune pruned] at among ⊢
      exact ⟨member, same ▸ among.2⟩
    · rwa [kept, if_neg pruned]

section Prune

variable (pruned : draft.prune) (distinct : (expansion.productions.map (·.1)).Nodup)
  (defined : ∀ name other, Refers expansion.productions name other →
    other ∈ expansion.productions.map (·.1))
include pruned distinct defined

/-- What is kept refers to nothing but what is kept. -/
theorem defined_of_kept {other : String}
    (referred : Refers (draft.kept start expansion) name other) :
    other ∈ reachable start expansion.productions ∧
      other ∈ (draft.kept start expansion).map (·.1) := by
  obtain ⟨sides, member, inside⟩ := referred
  obtain ⟨member, found⟩ := (mem_kept_of_prune pruned).mp member
  have reached := reachable_closed distinct defined found ⟨sides, member, inside⟩
  obtain ⟨entry, known, rfl⟩ := List.mem_map.mp (defined name other ⟨sides, member, inside⟩)
  exact ⟨reached, List.mem_map_of_mem ((mem_kept_of_prune pruned).mpr ⟨known, reached⟩)⟩

/-- What can be reached can be reached over what is kept. -/
theorem reachable_of_kept (reached : name ∈ reachable start expansion.productions) :
    name ∈ reachable start (draft.kept start expansion) := by
  suffices both : ∀ name ∈ reachable start expansion.productions,
      name ∈ reachable start expansion.productions ∧
        name ∈ reachable start (draft.kept start expansion) from (both name reached).2
  refine reachable_induction distinct ⟨start_mem_reachable _ _, start_mem_reachable _ _⟩
    fun name both other referred => ?_
  obtain ⟨sides, member, inside⟩ := referred
  have further : Refers (draft.kept start expansion) name other :=
    ⟨sides, (mem_kept_of_prune pruned).mpr ⟨member, both.1⟩, inside⟩
  exact ⟨(defined_of_kept pruned distinct defined further).1,
    reachable_closed (kept_nodup distinct)
      (fun _ _ referred => (defined_of_kept pruned distinct defined referred).2) both.2 further⟩

end Prune

/-- A draft from which the unreachable is left out is built if no production is empty or refers to
a name without productions. -/
theorem exists_build_of_prune
    (named : (draft.start <|> draft.alternatives.head?.map (·.name)) = some start)
    (pruned : draft.prune)
    (expanded : Expansion.ofAlternatives? draft.alternatives = .ok expansion)
    (begins : start ∈ expansion.productions.map (·.1))
    (filled : ∀ entry ∈ expansion.productions, ∀ production ∈ entry.2, production ≠ [])
    (defined : ∀ name other, Refers expansion.productions name other →
      other ∈ expansion.productions.map (·.1)) :
    ∃ grammar, draft.build = .ok grammar ∧ grammar.start = start ∧
      grammar.collections = number 0 (draft.kept start expansion) := by
  have distinct := Expansion.nodup_names expanded
  refine ⟨_, build_of_sound named expanded rfl (Grammar.fault?_eq_none ?_ ?_ ?_ ?_), rfl, rfl⟩
  · obtain ⟨entry, member, rfl⟩ := List.mem_map.mp begins
    rw [map_name_number]
    exact List.mem_map_of_mem
      ((mem_kept_of_prune pruned).mpr ⟨member, start_mem_reachable _ _⟩)
  · intro rule known other member
    obtain ⟨sides, kept, among⟩ := (mem_rules_iff rfl).mp known
    rw [map_name_number]
    exact (defined_of_kept pruned distinct defined
      ⟨sides, kept, mem_references.mpr ⟨_, among, member⟩⟩).2
  · intro rule known
    obtain ⟨sides, kept, among⟩ := (mem_rules_iff rfl).mp known
    exact filled _ ((mem_kept_of_prune pruned).mp kept).1 _ among
  · intro name member
    rw [map_name_number] at member
    obtain ⟨entry, kept, rfl⟩ := List.mem_map.mp member
    rw [Grammar.productions, map_productions_number]
    exact reachable_of_kept pruned distinct defined ((mem_kept_of_prune pruned).mp kept).2

end GrammarDraft

/-! ### A grammar for lines -/

namespace GrammarDraft

/-- Identifiers with semicolons between them, and the end mark behind them. -/
def lines : GrammarDraft where
  alternatives := [
    ⟨"Line", [.token .identifier, .token .semicolon, .rule "Line"]⟩,
    ⟨"Line", [.token .identifier, .token .endOfInput]⟩]

def lineProductions : List (String × List Production) :=
  [("Line", [[.token .identifier, .token .semicolon, .rule "Line"],
    [.token .identifier, .token .endOfInput]])]

def lineGrammar : Grammar where
  start := "Line"
  collections := number 0 lineProductions
  names := lines.mentioned { productions := lineProductions } "Line"

theorem rules_lineGrammar : lineGrammar.rules.toList =
    [⟨"Line", [.token .identifier, .token .semicolon, .rule "Line"]⟩,
      ⟨"Line", [.token .identifier, .token .endOfInput]⟩] := rfl

theorem build_lines : lines.build = .ok lineGrammar :=
  build_single rfl rfl rfl rfl (by decide) (by decide)

/-- A line may end behind any identifier, or go on. -/
theorem generates_line : lineGrammar.Generates [.rule "Line"] [.identifier, .endOfInput] ∧
    lineGrammar.Generates [.rule "Line"] [.identifier, .semicolon, .identifier, .endOfInput] := by
  have first : (⟨"Line", [.token .identifier, .token .semicolon, .rule "Line"]⟩ : Rule) ∈
      lineGrammar.rules := by
    rw [← Array.mem_toList_iff]
    simp [rules_lineGrammar]
  have last : (⟨"Line", [.token .identifier, .token .endOfInput]⟩ : Rule) ∈
      lineGrammar.rules := by
    rw [← Array.mem_toList_iff]
    simp [rules_lineGrammar]
  have short : lineGrammar.Matches [.rule "Line"] [.identifier, .endOfInput] :=
    .rule last (.tokens [.identifier, .endOfInput]) .nil
  refine ⟨Grammar.matches_iff_derives.mp short, Grammar.matches_iff_derives.mp ?_⟩
  exact .rule first (.token _ (.token _ short)) .nil

end GrammarDraft

/-! ### What is predicted for a name -/

namespace Grammar

variable {grammar : Grammar} {name : String} {id : Nat}

theorem rule?_mem {rule : Rule} (found : grammar.rule? id = some rule) : rule ∈ grammar.rules :=
  Array.mem_of_getElem? found

theorem exists_rule? {rule : Rule} (known : rule ∈ grammar.rules) :
    ∃ id, grammar.rule? id = some rule := by
  obtain ⟨id, bound, same⟩ := Array.mem_iff_getElem.mp known
  exact ⟨id, by rw [rule?, Array.getElem?_eq_getElem bound, same]⟩

private theorem first_le_of_mem_number {first : Nat} {productions : List (String × List Production)}
    {collection : Collection} (member : collection ∈ GrammarDraft.number first productions) :
    first ≤ collection.first := by
  induction productions generalizing first with
  | nil => cases member
  | cons entry rest ih =>
    rcases List.mem_cons.mp member with rfl | later
    · exact Nat.le_refl _
    · exact Nat.le_trans (Nat.le_add_right _ _) (ih later)

/-- The numbers of a name's rules are the places of the rules of that name. -/
private theorem mem_ruleIds_number (name : String) (first id : Nat)
    (productions : List (String × List Production)) :
    (∃ collection ∈ GrammarDraft.number first productions,
        collection.name = name ∧ first + id ∈ collection.ruleIds) ↔
      ∃ rule, ((GrammarDraft.number first productions).flatMap Collection.rules)[id]? = some rule ∧
        rule.name = name := by
  induction productions generalizing first id with
  | nil => simp [GrammarDraft.number]
  | cons entry rest ih =>
    obtain ⟨other, sides⟩ := entry
    have width : (Collection.rules ⟨other, first, sides⟩).length = sides.length := by
      simp [Collection.rules]
    simp only [GrammarDraft.number, List.flatMap_cons, List.exists_mem_cons_iff]
    rcases Nat.lt_or_ge id sides.length with inside | outside
    · have notLater : ¬ ∃ collection ∈ GrammarDraft.number (first + sides.length) rest,
          collection.name = name ∧ first + id ∈ collection.ruleIds := by
        rintro ⟨collection, member, -, numbered⟩
        have bound := first_le_of_mem_number member
        have start := (List.mem_range'_1.mp numbered).1
        omega
      have here : first + id ∈ Collection.ruleIds ⟨other, first, sides⟩ :=
        List.mem_range'_1.mpr ⟨Nat.le_add_right _ _, Nat.add_lt_add_left inside first⟩
      rw [List.getElem?_append_left (by rw [width]; exact inside)]
      simp [notLater, here, Collection.rules, List.getElem?_eq_getElem inside]
    · obtain ⟨id, rfl⟩ := Nat.exists_eq_add_of_le outside
      have notHere : first + (sides.length + id) ∉ Collection.ruleIds ⟨other, first, sides⟩ := by
        intro numbered
        have bound := (List.mem_range'_1.mp numbered).2
        simp only at bound
        omega
      rw [List.getElem?_append_right (by rw [width]; exact outside), width,
        Nat.add_sub_cancel_left, ← ih (first + sides.length) id, ← Nat.add_assoc]
      rw [← Nat.add_assoc] at notHere
      simp [notHere]

/-- The rules predicted for a name are the rules of that name. -/
theorem WellFormed.mem_predictions (sound : grammar.WellFormed) :
    id ∈ (Predictions.ofGrammar grammar).get name ↔
      ∃ rule, grammar.rule? id = some rule ∧ rule.name = name := by
  have places := mem_ruleIds_number name 0 id grammar.productions
  rw [← sound.numbered, Nat.zero_add] at places
  rw [rule?, grammar.rules_eq, List.getElem?_toArray, ← places]
  unfold Predictions.get Predictions.ofGrammar
  rw [Reachability.mem_getD_ofList (by simpa [List.map_map, Function.comp_def] using sound.distinct)]
  constructor
  · rintro ⟨ids, member, inside⟩
    obtain ⟨collection, known, same⟩ := List.mem_map.mp member
    cases same
    exact ⟨collection, known, rfl, inside⟩
  · rintro ⟨collection, known, rfl, inside⟩
    exact ⟨collection.ruleIds, List.mem_map_of_mem known, inside⟩

end Grammar

end JavaFrontend
