import JavaFrontend.Proofs.Grammar.WellFormed
import Mathlib.Logic.Relation

/-!
The order in a grammar that was built. Its rules are numbered through, those of one collection
stand together, nothing in it is empty, doubled or undefined, and all of it can be reached. A draft
from which the unreachable is left out keeps exactly what its start leads to, and is never refused
for something that cannot be reached.
-/

namespace JavaFrontend

/-! ### Where references lead -/

namespace Reachability

variable {productions : List (String × List Production)} {start name : String}

/-- The one name leads to the other by way of any number of references. -/
def Leads (productions : List (String × List Production)) : String → String → Prop :=
  Relation.ReflTransGen (Refers productions)

theorem leads_of_mem_reachable (distinct : (productions.map (·.1)).Nodup)
    (found : name ∈ reachable start productions) : Leads productions start name :=
  reachable_induction distinct .refl (fun _ way _ refers => way.tail refers) name found

/-- Where all names referred to are defined, the search finds what the start leads to. -/
theorem mem_reachable_iff (distinct : (productions.map (·.1)).Nodup)
    (defined : ∀ name other, Refers productions name other → other ∈ productions.map (·.1)) :
    name ∈ reachable start productions ↔ Leads productions start name := by
  refine ⟨leads_of_mem_reachable distinct, fun way => ?_⟩
  induction way with
  | refl => exact start_mem_reachable start productions
  | tail _ refers found => exact reachable_closed distinct defined found refers

end Reachability

open Reachability

/-! ### Order -/

/-- The rules are numbered through, collection by collection, and there is nothing in the grammar
that is empty, doubled, undefined or out of reach. -/
structure Grammar.Orderly (grammar : Grammar) : Prop where
  /-- Put together, the numbers of the collections are those of all rules, in order. -/
  numbered : grammar.collections.flatMap Collection.ruleIds = List.range grammar.rules.size
  /-- The numbers of a collection are those of rules with its name and its productions. -/
  runs : ∀ collection ∈ grammar.collections,
    collection.ruleIds.map grammar.rule? = collection.rules.map some
  inhabited : ∀ collection ∈ grammar.collections, collection.ruleIds ≠ []
  distinct : (grammar.collections.map (·.name)).Nodup
  /-- A name is looked up as the collection of that name. -/
  found : ∀ name collection, grammar.collection? name = some collection ↔
    collection ∈ grammar.collections ∧ collection.name = name
  /-- Each rule is one of the collection of its name. -/
  assigned : ∀ id rule, grammar.rule? id = some rule → ∃ collection,
    grammar.collection? rule.name = some collection ∧ id ∈ collection.ruleIds
  filled : ∀ rule ∈ grammar.rules, rule.parts ≠ []
  single : ∀ collection ∈ grammar.collections, collection.productions.Nodup
  defined : ∀ rule ∈ grammar.rules, ∀ name, .rule name ∈ rule.parts →
    ∃ collection, grammar.collection? name = some collection
  begins : ∃ collection, grammar.collection? grammar.start = some collection
  reached : ∀ collection ∈ grammar.collections,
    Leads grammar.productions grammar.start collection.name
  /-- What is predicted for a name is the collection of that name, in order. -/
  predicted : ∀ name, (Predictions.ofGrammar grammar).get name =
    ((grammar.collection? name).map Collection.ruleIds).getD []

/-! ### Expansion -/

namespace ExpansionM

variable {β γ : Type}

/-- The only reason for which the computation fails is an empty production. -/
def FailsEmpty (computation : ExpansionM β) : Prop :=
  ∀ before reason, computation before = .error reason → ∃ name, reason = .emptyProduction name

theorem failsEmpty_pure (value : β) : FailsEmpty (pure value : ExpansionM β) := by
  rintro before reason ⟨⟩

theorem failsEmpty_bind {first : ExpansionM β} {next : β → ExpansionM γ} (head : FailsEmpty first)
    (tail : ∀ value, FailsEmpty (next value)) : FailsEmpty (first >>= next) := by
  intro before reason failed
  change (first before >>= fun (result, between) => next result between) = _ at failed
  cases ran : first before with
  | error other =>
    rw [ran] at failed
    cases failed
    exact head before reason ran
  | ok pair =>
    rw [ran] at failed
    exact tail pair.1 pair.2 reason failed

theorem failsEmpty_addAll (name : String) (productionsOf : Production → List Production)
    (sequences : List Production) : FailsEmpty (addAll name productionsOf sequences) := by
  induction sequences with
  | nil => exact failsEmpty_pure ()
  | cons sequence sequences ih =>
    unfold addAll
    dsimp only
    split
    · refine failsEmpty_bind ?_ fun _ => failsEmpty_bind (by rintro _ _ ⟨⟩) fun _ => ih
      rintro before reason ⟨⟩
      exact ⟨name, rfl⟩
    · exact failsEmpty_bind (by rintro _ _ ⟨⟩) fun _ => ih

mutual

theorem failsEmpty_appendElement (sequences : List Production) :
    (element : Element) → FailsEmpty (appendElement sequences element)
  | .token kind => failsEmpty_pure _
  | .rule name => failsEmpty_pure _
  | .optional body =>
    failsEmpty_bind (failsEmpty_appendElements [[]] body) fun _ => failsEmpty_pure _
  | .repeated body => by
    unfold appendElement
    refine failsEmpty_bind (by rintro _ _ ⟨⟩) fun expansion => ?_
    dsimp only
    split
    · exact failsEmpty_bind (failsEmpty_pure _) fun _ => failsEmpty_pure _
    · exact failsEmpty_bind (by rintro _ _ ⟨⟩) fun _ =>
        failsEmpty_bind (failsEmpty_appendElements [[]] body) fun _ =>
          failsEmpty_bind (failsEmpty_addAll _ _ _) fun _ =>
            failsEmpty_bind (failsEmpty_pure _) fun _ => failsEmpty_pure _

theorem failsEmpty_appendElements (sequences : List Production) :
    (elements : List Element) → FailsEmpty (appendElements sequences elements)
  | [] => failsEmpty_pure _
  | element :: rest =>
    failsEmpty_bind (failsEmpty_appendElement sequences element) fun sequences =>
      failsEmpty_appendElements sequences rest

end

theorem failsEmpty_addAlternatives (alternatives : List Alternative) :
    FailsEmpty (alternatives.forM addAlternative) := by
  induction alternatives with
  | nil => exact failsEmpty_pure ()
  | cons alternative alternatives ih =>
    exact failsEmpty_bind (failsEmpty_bind (failsEmpty_appendElements [[]] _)
      fun _ => failsEmpty_addAll _ _ _) fun _ => ih

end ExpansionM

namespace Expansion

variable {alternatives : List Alternative} {expansion : Expansion}

/-- The only reason for which there is no expansion is an empty production. -/
theorem eq_emptyProduction_of_ofAlternatives? {reason : GrammarError}
    (failed : ofAlternatives? alternatives = .error reason) :
    ∃ name, reason = .emptyProduction name := by
  have run : ofAlternatives? alternatives =
      ((alternatives.forM ExpansionM.addAlternative) {} >>= fun pair => pure pair.2) := rfl
  rw [run] at failed
  cases ran : (alternatives.forM ExpansionM.addAlternative) ({} : Expansion) with
  | ok pair =>
    rw [ran] at failed
    cases failed
  | error other =>
    rw [ran] at failed
    cases failed
    exact ExpansionM.failsEmpty_addAlternatives alternatives _ _ ran

/-- Each name has some productions, and each of them once. -/
def Lists (productions : List (String × List Production)) : Prop :=
  ∀ entry ∈ productions, entry.2 ≠ [] ∧ entry.2.Nodup

theorem lists_insert {productions : List (String × List Production)} (name : String)
    (production : Production) (lists : Lists productions) :
    Lists (insert name production productions) := by
  induction productions with
  | nil =>
    intro entry member
    obtain rfl := List.mem_singleton.mp member
    exact ⟨List.cons_ne_nil _ _, List.nodup_singleton production⟩
  | cons first rest ih =>
    obtain ⟨other, known⟩ := first
    obtain ⟨here, later⟩ := List.forall_mem_cons.mp lists
    by_cases same : other = name
    · rw [insert, if_pos same]
      refine List.forall_mem_cons.mpr ⟨?_, later⟩
      by_cases old : production ∈ known
      · simpa only [if_pos old] using here
      · simp only [if_neg old]
        exact ⟨List.append_ne_nil_of_right_ne_nil _ (List.cons_ne_nil _ _),
          List.nodup_append.mpr ⟨here.2, List.nodup_singleton _, fun _ among _ single =>
            fun eq => old (List.mem_singleton.mp single ▸ eq ▸ among)⟩⟩
    · rw [insert, if_neg same]
      exact List.forall_mem_cons.mpr ⟨here, ih later⟩

theorem lists_of_ofAlternatives? (expanded : ofAlternatives? alternatives = .ok expansion) :
    Lists expansion.productions :=
  ExpansionM.expansion_induction (fun name production _ => lists_insert name production) expanded
    (List.forall_mem_nil _)

end Expansion

/-! ### Numbers -/

namespace GrammarDraft

theorem flatMap_ruleIds_number (first : Nat) (productions : List (String × List Production)) :
    (number first productions).flatMap Collection.ruleIds =
      List.range' first ((number first productions).flatMap Collection.rules).length := by
  induction productions generalizing first with
  | nil => rfl
  | cons entry rest ih =>
    obtain ⟨name, sides⟩ := entry
    rw [number, List.flatMap_cons, List.flatMap_cons, List.length_append, ih,
      ← List.range'_append_1]
    simp [Collection.ruleIds, Collection.rules]

/-- The rules of a collection stand at its numbers, if as many rules as its first number says stand
before all of them. -/
theorem map_ruleIds_number (before : List Rule) (productions : List (String × List Production))
    {collection : Collection} (member : collection ∈ number before.length productions) :
    collection.ruleIds.map
        (fun id => (before ++ (number before.length productions).flatMap Collection.rules)[id]?) =
      collection.rules.map some := by
  induction productions generalizing before with
  | nil => cases member
  | cons entry rest ih =>
    obtain ⟨name, sides⟩ := entry
    have width : (Collection.rules ⟨name, before.length, sides⟩).length = sides.length :=
      List.length_map _
    rcases List.mem_cons.mp member with rfl | later
    · refine List.ext_getElem? fun i => ?_
      simp only [Collection.ruleIds, number, List.flatMap_cons, List.getElem?_map]
      rcases Nat.lt_or_ge i sides.length with inside | outside
      · rw [List.getElem?_range' inside, List.getElem?_eq_getElem (by rw [width]; exact inside)]
        simp only [Nat.one_mul, Option.map_some]
        rw [List.getElem?_append_right (Nat.le_add_right _ _), Nat.add_sub_cancel_left,
          List.getElem?_append_left (by rw [width]; exact inside),
          List.getElem?_eq_getElem (by rw [width]; exact inside)]
      · rw [List.getElem?_eq_none (by simpa using outside),
          List.getElem?_eq_none (by rw [width]; exact outside)]
        rfl
    · have same : before.length + sides.length =
          (before ++ Collection.rules ⟨name, before.length, sides⟩).length := by
        rw [List.length_append, width]
      rw [number, List.flatMap_cons, ← List.append_assoc]
      rw [same] at later ⊢
      exact ih _ later

end GrammarDraft

namespace Grammar

variable {grammar : Grammar} {name : String}

theorem collection?_eq_some_iff (distinct : (grammar.collections.map (·.name)).Nodup)
    {collection : Collection} : grammar.collection? name = some collection ↔
      collection ∈ grammar.collections ∧ collection.name = name := by
  constructor
  · intro found
    exact ⟨List.mem_of_find?_eq_some found, by simpa using List.find?_some found⟩
  · rintro ⟨member, rfl⟩
    cases found : grammar.collection? collection.name with
    | none =>
      have absent := List.find?_eq_none.mp found collection member
      simp at absent
    | some other =>
      have named : other.name = collection.name := by simpa using List.find?_some found
      rw [List.inj_on_of_nodup_map distinct (List.mem_of_find?_eq_some found) member named]

theorem exists_collection?_iff :
    (∃ collection, grammar.collection? name = some collection) ↔
      name ∈ grammar.collections.map (·.name) := by
  rw [← Option.isSome_iff_exists, collection?, List.find?_isSome, List.mem_map]
  exact exists_congr fun collection => and_congr_right fun _ => beq_iff_eq

/-- What is predicted for a name is the collection of that name. -/
theorem predictions_get (distinct : (grammar.collections.map (·.name)).Nodup) :
    (Predictions.ofGrammar grammar).get name =
      ((grammar.collection? name).map Collection.ruleIds).getD [] := by
  have names : (grammar.collections.map fun collection =>
      (collection.name, collection.ruleIds)).map (·.1) = grammar.collections.map (·.name) := by
    rw [List.map_map]
    rfl
  unfold Predictions.get Predictions.ofGrammar
  cases found : grammar.collection? name with
  | some collection =>
    obtain ⟨member, rfl⟩ := (collection?_eq_some_iff distinct).mp found
    rw [← names] at distinct
    exact Std.HashMap.getD_ofList_of_mem (beq_self_eq_true _)
      (by simpa [List.Nodup, List.pairwise_map] using distinct) (List.mem_map_of_mem member)
  | none =>
    refine Std.HashMap.getD_ofList_of_contains_eq_false ?_
    rw [names]
    refine Bool.eq_false_iff.mpr fun among => ?_
    obtain ⟨collection, some⟩ := exists_collection?_iff.mpr (List.contains_iff_mem.mp among)
    rw [found] at some
    cases some

theorem undefinedReference?_ne {rule : String} :
    grammar.undefinedReference? ≠ some (.unreachableRule rule) := by
  intro found
  obtain ⟨other, -, found⟩ := List.exists_of_findSome?_eq_some found
  obtain ⟨part, -, found⟩ := List.exists_of_findSome?_eq_some found
  split at found
  · split at found
    · cases found
    · cases found
  · cases found

/-- Something unreachable is only reported where the start and all names in the rules are
defined. -/
theorem unreachable_of_fault? {rule : String}
    (fault : grammar.fault? = some (.unreachableRule rule)) :
    grammar.start ∈ grammar.collections.map (·.name) ∧
      (∀ rule ∈ grammar.rules, ∀ name, .rule name ∈ rule.parts →
        name ∈ grammar.collections.map (·.name)) ∧
      ∃ collection ∈ grammar.collections,
        collection.name ∉ reachable grammar.start grammar.productions := by
  unfold fault? at fault
  split at fault
  · cases fault
  next begins =>
  rw [Option.orElse_eq_orElse, Option.orElse_eq_or, Option.or_eq_some_iff] at fault
  rcases fault with reference | ⟨noReference, fault⟩
  · exact absurd reference undefinedReference?_ne
  obtain ⟨start, defined⟩ := defined_of_undefinedReference? begins noReference
  refine ⟨start, defined, ?_⟩
  rw [Option.orElse_eq_or, Option.or_eq_some_iff] at fault
  rcases fault with empty | ⟨-, fault⟩
  · obtain ⟨_, -, other⟩ := Option.map_eq_some_iff.mp empty
    cases other
  · obtain ⟨collection, away, -⟩ := Option.map_eq_some_iff.mp fault
    exact ⟨collection, List.mem_of_find?_eq_some away, by simpa using List.find?_some away⟩

end Grammar

/-! ### What is kept -/

namespace GrammarDraft

variable {draft : GrammarDraft} {start name : String} {expansion : Expansion} {grammar : Grammar}

/-- If what is kept has the start and all names it refers to, it has all that the start leads
to, by the same way. -/
theorem leads_of_kept (begins : start ∈ (draft.kept start expansion).map (·.1))
    (defined : ∀ name other, Refers (draft.kept start expansion) name other →
      other ∈ (draft.kept start expansion).map (·.1))
    (way : Leads expansion.productions start name) :
    name ∈ (draft.kept start expansion).map (·.1) ∧ Leads (draft.kept start expansion) start name := by
  induction way with
  | refl => exact ⟨begins, .refl⟩
  | @tail name other _ refers ih =>
    obtain ⟨sides, member, inside⟩ := refers
    have further : Refers (draft.kept start expansion) name other :=
      ⟨sides, mem_kept_iff.mpr ⟨member, ih.1⟩, inside⟩
    exact ⟨defined name other further, ih.2.tail further⟩

/-- In a grammar with nothing undefined, what is kept of the draft has the start and all names it
refers to. -/
theorem defined_kept (numbered : grammar.collections = number 0 (draft.kept grammar.start expansion))
    (begins : grammar.start ∈ grammar.collections.map (·.name))
    (defined : ∀ rule ∈ grammar.rules, ∀ name, .rule name ∈ rule.parts →
      name ∈ grammar.collections.map (·.name)) :
    grammar.start ∈ (draft.kept grammar.start expansion).map (·.1) ∧
      ∀ name other, Refers (draft.kept grammar.start expansion) name other →
        other ∈ (draft.kept grammar.start expansion).map (·.1) := by
  have names : grammar.collections.map (·.name) =
      (draft.kept grammar.start expansion).map (·.1) := by rw [numbered, map_name_number]
  rw [names] at begins
  refine ⟨begins, fun name other refers => ?_⟩
  obtain ⟨sides, member, inside⟩ := refers
  obtain ⟨production, among, part⟩ := mem_references.mp inside
  rw [← names]
  exact defined ⟨name, production⟩ ((mem_rules_iff numbered).mpr ⟨sides, member, among⟩) other part

theorem kept_sublist : (draft.kept start expansion).Sublist expansion.productions := by
  unfold kept
  split
  · exact List.filter_sublist
  · exact List.Sublist.refl _

/-- The start leads to all that is in a grammar. -/
theorem reached_of_build (built : draft.build = .ok grammar) {collection : Collection}
    (member : collection ∈ grammar.collections) :
    Leads grammar.productions grammar.start collection.name := by
  obtain ⟨expansion, -, -, -, sound⟩ := build_cases built
  have noFault : grammar.unreachable? = none := by
    unfold Grammar.fault? at sound
    split at sound
    · cases sound
    · simp only [Option.orElse_eq_orElse, Option.orElse_eq_or, Option.or_eq_none_iff] at sound
      exact sound.2.2
  have names : grammar.productions.map (·.1) = grammar.collections.map (·.name) := by
    rw [Grammar.productions, List.map_map]
    rfl
  refine leads_of_mem_reachable (names ▸ (well_formed_of_build built).distinct) ?_
  simp only [Grammar.unreachable?, Option.map_eq_none_iff, List.find?_eq_none] at noFault
  simpa using noFault collection member

/-- The grammar keeps what its start leads to, in the order of the expansion. -/
theorem kept_of_build (built : draft.build = .ok grammar) :
    ∃ expansion, Expansion.ofAlternatives? draft.alternatives = .ok expansion ∧
      grammar.productions.Sublist expansion.productions ∧
      ∀ entry, entry ∈ grammar.productions ↔
        entry ∈ expansion.productions ∧ Leads expansion.productions grammar.start entry.1 := by
  obtain ⟨expansion, -, expanded, numbered, sound⟩ := build_cases built
  obtain ⟨begins, defined⟩ := Grammar.defined_of_fault? sound
  obtain ⟨keptStart, keptNames⟩ := defined_kept numbered begins defined
  have productions : grammar.productions = draft.kept grammar.start expansion := by
    rw [Grammar.productions, numbered, map_productions_number]
  refine ⟨expansion, expanded, productions ▸ kept_sublist, fun entry => ?_⟩
  constructor
  · intro member
    refine ⟨(mem_kept_iff.mp (productions ▸ member)).1, ?_⟩
    obtain ⟨collection, among, rfl⟩ := List.mem_map.mp member
    have way := reached_of_build built among
    have refers (name other : String) : Refers grammar.productions name other →
        Refers expansion.productions name other := by
      rintro ⟨sides, within, inside⟩
      exact ⟨sides, (mem_kept_iff.mp (productions ▸ within)).1, inside⟩
    exact Relation.ReflTransGen.mono refers _ _ way
  · rintro ⟨member, way⟩
    rw [productions]
    exact mem_kept_iff.mpr ⟨member, (leads_of_kept keptStart keptNames way).1⟩

/-- The rules of a grammar that was built are in order. -/
theorem orderly_of_build (built : draft.build = .ok grammar) : grammar.Orderly := by
  have wellFormed := well_formed_of_build built
  obtain ⟨expansion, -, expanded, numbered, sound⟩ := build_cases built
  obtain ⟨begins, defined⟩ := Grammar.defined_of_fault? sound
  have rules : grammar.rules.toList =
      (number 0 (draft.kept grammar.start expansion)).flatMap Collection.rules := by
    rw [grammar.rules_eq, numbered]
  have listed (collection : Collection) (member : collection ∈ grammar.collections) :
      collection.productions ≠ [] ∧ collection.productions.Nodup := by
    have kept : (collection.name, collection.productions) ∈ draft.kept grammar.start expansion := by
      rw [← map_productions_number 0 (draft.kept grammar.start expansion), ← numbered]
      exact List.mem_map_of_mem member
    exact Expansion.lists_of_ofAlternatives? expanded _ (mem_kept_iff.mp kept).1
  constructor
  case numbered =>
    rw [← Array.length_toList, rules, numbered, flatMap_ruleIds_number, List.range_eq_range']
  case runs =>
    intro collection member
    rw [numbered] at member
    rw [← map_ruleIds_number [] _ member]
    refine List.map_congr_left fun id _ => ?_
    rw [Grammar.rule?, ← Array.getElem?_toList, rules]
    rfl
  case inhabited =>
    intro collection member
    simpa [Collection.ruleIds, List.range'_eq_nil_iff] using (listed collection member).1
  case distinct => exact wellFormed.distinct
  case found => exact fun _ _ => Grammar.collection?_eq_some_iff wellFormed.distinct
  case assigned =>
    intro id rule known
    have member := wellFormed.mem_predictions.mpr ⟨rule, known, rfl⟩
    rw [Grammar.predictions_get wellFormed.distinct] at member
    cases lookup : grammar.collection? rule.name with
    | none => simp [lookup] at member
    | some collection => exact ⟨collection, rfl, by simpa [lookup] using member⟩
  case filled => exact wellFormed.nonempty
  case single => exact fun collection member => (listed collection member).2
  case defined =>
    exact fun rule known name part =>
      Grammar.exists_collection?_iff.mpr (defined rule known name part)
  case begins => exact Grammar.exists_collection?_iff.mpr begins
  case reached => exact fun collection member => reached_of_build built member
  case predicted => exact fun name => Grammar.predictions_get wellFormed.distinct

/-- What is refused is refused for want of a start, for an empty production, or for a fault of what
was to be built. -/
theorem build_error_cases {reason : GrammarError} (failed : draft.build = .error reason) :
    reason = .missingStart "" ∨ (∃ name, reason = .emptyProduction name) ∨
      ∃ (expansion : Expansion) (grammar : Grammar),
        Expansion.ofAlternatives? draft.alternatives = .ok expansion ∧
        grammar.collections = number 0 (draft.kept grammar.start expansion) ∧
        grammar.fault? = some reason := by
  unfold build at failed
  split at failed
  · rename_i start named
    cases expanded : Expansion.ofAlternatives? draft.alternatives with
    | error other =>
      rw [expanded] at failed
      cases failed
      exact .inr (.inl (Expansion.eq_emptyProduction_of_ofAlternatives? expanded))
    | ok expansion =>
      rw [expanded] at failed
      simp only [bind, Except.bind] at failed
      split at failed
      · rename_i fault found
        cases failed
        exact .inr (.inr ⟨expansion, _, rfl, rfl, found⟩)
      · cases failed
  · cases failed
    exact .inl rfl

/-- A draft from which the unreachable is left out is not refused for something unreachable. -/
theorem build_ne_unreachable (pruned : draft.prune) (name : String) :
    draft.build ≠ .error (.unreachableRule name) := by
  intro failed
  rcases build_error_cases failed with none | ⟨_, empty⟩ | ⟨expansion, grammar, expanded, numbered, fault⟩
  · cases none
  · cases empty
  obtain ⟨begins, defined, collection, member, away⟩ := Grammar.unreachable_of_fault? fault
  obtain ⟨keptStart, keptNames⟩ := defined_kept numbered begins defined
  have distinct := Expansion.nodup_names expanded
  rw [Grammar.productions, numbered, map_productions_number] at away
  have kept : collection.name ∈ (draft.kept grammar.start expansion).map (·.1) := by
    rw [← map_name_number 0, ← numbered]
    exact List.mem_map_of_mem member
  obtain ⟨entry, among, same⟩ := List.mem_map.mp kept
  have found := ((mem_kept_of_prune pruned).mp among).2
  have way := (leads_of_kept keptStart keptNames (leads_of_mem_reachable distinct found)).2
  rw [same] at way
  exact away ((mem_reachable_iff (distinct.sublist (kept_sublist.map _)) keptNames).mpr way)

/-- Whatever the draft, a grammar that is built from it is in order and keeps exactly what its start
leads to; and where the unreachable is left out, nothing unreachable is a reason to refuse it. -/
theorem build_orderly (draft : GrammarDraft) :
    (∀ grammar, draft.build = .ok grammar → grammar.Orderly ∧
      ∃ expansion, Expansion.ofAlternatives? draft.alternatives = .ok expansion ∧
        grammar.productions.Sublist expansion.productions ∧
        ∀ entry, entry ∈ grammar.productions ↔
          entry ∈ expansion.productions ∧ Leads expansion.productions grammar.start entry.1) ∧
    (draft.prune → ∀ name, draft.build ≠ .error (.unreachableRule name)) :=
  ⟨fun _ built => ⟨orderly_of_build built, kept_of_build built⟩, build_ne_unreachable⟩

/-! ### A draft with something to spare -/

/-- A list, and a name that it does not need. -/
def spare : GrammarDraft where
  alternatives := [
    ⟨"List", [.token .identifier, .repeated [.token .comma, .token .identifier]]⟩,
    ⟨"Line", [.rule "List", .token .semicolon]⟩]
  prune := true

def spareExpansion : Expansion where
  productions := [
    ("ZOM_1", [[.token .comma, .token .identifier],
      [.rule "ZOM_1", .token .comma, .token .identifier]]),
    ("List", [[.token .identifier], [.token .identifier, .rule "ZOM_1"]]),
    ("Line", [[.rule "List", .token .semicolon]])]
  repetitions := [([.token .comma, .token .identifier], "ZOM_1")]

theorem expansion_spare : Expansion.ofAlternatives? spare.alternatives = .ok spareExpansion := rfl

private theorem refers_spare {name other : String}
    (refers : Refers spareExpansion.productions name other) :
    other = "ZOM_1" ∨ other = "List" := by
  obtain ⟨sides, member, inside⟩ := refers
  have all : ∀ entry ∈ spareExpansion.productions, ∀ other ∈ references entry.2,
      other = "ZOM_1" ∨ other = "List" := by decide
  exact all _ member other inside

private theorem defined_spare (name other : String)
    (refers : Refers spareExpansion.productions name other) :
    other ∈ spareExpansion.productions.map (·.1) := by
  rcases refers_spare refers with rfl | rfl <;> decide

/-- The list is built without what it does not need. -/
theorem orderly_spare : spare.prune ∧ (∀ name, spare.build ≠ .error (.unreachableRule name)) ∧
    ∃ grammar, spare.build = .ok grammar ∧ grammar.Orderly ∧
      ("Line", [[.rule "List", .token .semicolon]]) ∉ grammar.productions := by
  obtain ⟨grammar, built, start, -⟩ :=
    exists_build_of_prune rfl rfl expansion_spare (by decide) (by decide) defined_spare
  obtain ⟨orderly, expansion, expanded, -, kept⟩ := (build_orderly spare).1 grammar built
  refine ⟨rfl, (build_orderly spare).2 rfl, grammar, built, orderly, fun member => ?_⟩
  cases expansion_spare.symm.trans expanded
  rcases Relation.ReflTransGen.cases_tail ((kept _).mp member).2 with same | ⟨_, -, refers⟩
  · rw [start] at same
    exact absurd same (by decide)
  · exact absurd (refers_spare refers) (by decide)

end GrammarDraft

end JavaFrontend
