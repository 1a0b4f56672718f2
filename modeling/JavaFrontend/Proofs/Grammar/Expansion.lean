import JavaFrontend.Proofs.Grammar.WellFormed
import Std.Data.String.ToNat

/-!
What expansion makes of alternatives. `Spells` says, without reference to the computation, which
plain sequences a row of elements stands for when repetitions have names. The productions of an
expansion are exactly those that are spelled by an alternative of their name, or by the body that
their name repeats (`Faithful.has_iff`); and the expansion of alternatives in which something is
never left out succeeds.
-/

namespace JavaFrontend

/-! ### Elements -/

namespace Element

mutual

/-- The bodies of the repetitions in the element, at any depth. -/
def bodies : Element → List (List Element)
  | .token _ | .rule _ => []
  | .optional body => rowBodies body
  | .repeated body => body :: rowBodies body

def rowBodies : List Element → List (List Element)
  | [] => []
  | element :: elements => element.bodies ++ rowBodies elements

end

mutual

private theorem names_of_mem_bodies {body : List Element} :
    (element : Element) → body ∈ element.bodies → bodyNames body ⊆ element.names
  | .token _, member | .rule _, member => by simp [bodies] at member
  | .optional inner, member => bodyNames_of_mem_rowBodies inner member
  | .repeated inner, member => by
    rcases List.mem_cons.mp member with rfl | deeper
    · exact List.Subset.refl _
    · exact bodyNames_of_mem_rowBodies inner deeper

/-- A row refers to what the bodies of its repetitions refer to. -/
theorem bodyNames_of_mem_rowBodies {body : List Element} :
    (elements : List Element) → body ∈ rowBodies elements → bodyNames body ⊆ bodyNames elements
  | [], member => by simp [rowBodies] at member
  | element :: elements, member => by
    rcases List.mem_append.mp member with here | later
    · exact List.subset_append_of_subset_left _ (names_of_mem_bodies element here)
    · exact List.subset_append_of_subset_right _ (bodyNames_of_mem_rowBodies elements later)

end

mutual

/-- The bodies of the repetitions in the element that are in no other repetition. -/
def outer : Element → List (List Element)
  | .token _ | .rule _ => []
  | .optional body => rowOuter body
  | .repeated body => [body]

def rowOuter : List Element → List (List Element)
  | [] => []
  | element :: elements => element.outer ++ rowOuter elements

end

/-- What is never left out of a row. -/
def skeleton : List Element → Production
  | [] => []
  | .token kind :: elements => .token kind :: skeleton elements
  | .rule name :: elements => .rule name :: skeleton elements
  | .optional _ :: elements | .repeated _ :: elements => skeleton elements

end Element

open Element

/-- The bodies of repetitions with the names that stand for them. -/
abbrev Repetitions := List (List Element × String)

/-- The sequence is one of those that the elements stand for. -/
inductive Spells (repetitions : Repetitions) : List Element → Production → Prop where
  | nil : Spells repetitions [] []
  | token (kind : Kind) {elements : List Element} {production : Production}
      (rest : Spells repetitions elements production) :
    Spells repetitions (.token kind :: elements) (.token kind :: production)
  | rule (name : String) {elements : List Element} {production : Production}
      (rest : Spells repetitions elements production) :
    Spells repetitions (.rule name :: elements) (.rule name :: production)
  | skip (body : List Element) {elements : List Element} {production : Production}
      (rest : Spells repetitions elements production) :
    Spells repetitions (.optional body :: elements) production
  | take {body elements : List Element} {inner production : Production}
      (inside : Spells repetitions body inner) (rest : Spells repetitions elements production) :
    Spells repetitions (.optional body :: elements) (inner ++ production)
  | never (body : List Element) {elements : List Element} {production : Production}
      (rest : Spells repetitions elements production) :
    Spells repetitions (.repeated body :: elements) production
  | some {body elements : List Element} {name : String} {production : Production}
      (named : (body, name) ∈ repetitions) (rest : Spells repetitions elements production) :
    Spells repetitions (.repeated body :: elements) (.rule name :: production)

namespace Spells

variable {repetitions more : Repetitions} {elements others : List Element}
  {production other : Production}

theorem mono (spelled : Spells repetitions elements production) (within : repetitions ⊆ more) :
    Spells more elements production := by
  induction spelled with
  | nil => exact .nil
  | token kind _ ih => exact .token kind ih
  | rule name _ ih => exact .rule name ih
  | skip body _ ih => exact .skip body ih
  | take _ _ inner rest => exact .take inner rest
  | never body _ ih => exact .never body ih
  | some named _ ih => exact .some (within named) ih

theorem append (head : Spells repetitions elements production)
    (tail : Spells repetitions others other) :
    Spells repetitions (elements ++ others) (production ++ other) := by
  induction head with
  | nil => exact tail
  | token kind _ ih => exact .token kind ih
  | rule name _ ih => exact .rule name ih
  | skip body _ ih => exact .skip body ih
  | take inner _ _ ih =>
    rw [List.append_assoc]
    exact .take inner ih
  | never body _ ih => exact .never body ih
  | some named _ ih => exact .some named ih

/-- A row spells what its first element spells, with what the others spell behind it. -/
theorem split {element : Element} (spelled : Spells repetitions (element :: elements) production) :
    ∃ front back, production = front ++ back ∧ Spells repetitions [element] front ∧
      Spells repetitions elements back := by
  cases spelled with
  | token kind rest => exact ⟨[_], _, rfl, .token kind .nil, rest⟩
  | rule name rest => exact ⟨[_], _, rfl, .rule name .nil, rest⟩
  | skip body rest => exact ⟨[], _, rfl, .skip body .nil, rest⟩
  | @take _ _ inner _ inside rest =>
    exact ⟨inner, _, rfl, by simpa using Spells.take inside .nil, rest⟩
  | never body rest => exact ⟨[], _, rfl, .never body .nil, rest⟩
  | some named rest => exact ⟨[_], _, rfl, .some named .nil, rest⟩

/-- A row spells what is never left out of it. -/
theorem skeleton (repetitions : Repetitions) : (elements : List Element) →
    Spells repetitions elements (Element.skeleton elements)
  | [] => .nil
  | .token kind :: elements => .token kind (skeleton repetitions elements)
  | .rule name :: elements => .rule name (skeleton repetitions elements)
  | .optional body :: elements => .skip body (skeleton repetitions elements)
  | .repeated body :: elements => .never body (skeleton repetitions elements)

theorem skeleton_sublist (spelled : Spells repetitions elements production) :
    (Element.skeleton elements).Sublist production := by
  induction spelled with
  | nil => exact .slnil
  | token kind _ ih => exact ih.cons_cons _
  | rule name _ ih => exact ih.cons_cons _
  | skip _ _ ih => exact ih
  | take _ _ _ ih => exact ih.trans (List.sublist_append_right _ _)
  | never _ _ ih => exact ih
  | some _ _ ih => exact ih.cons _

/-- The names in a sequence are those that the elements refer to, or stand for repetitions. -/
theorem mem_names {name : String} (spelled : Spells repetitions elements production)
    (member : .rule name ∈ production) :
    name ∈ bodyNames elements ∨ ∃ body, (body, name) ∈ repetitions := by
  induction spelled with
  | nil => cases member
  | token kind _ ih => simpa [bodyNames, names] using ih (by simpa using member)
  | rule other _ ih =>
    rcases List.mem_cons.mp member with same | later
    · cases same
      exact .inl (List.mem_append_left _ (List.mem_singleton_self _))
    · exact (ih later).imp_left (List.mem_append_right _)
  | skip _ _ ih | never _ _ ih => exact (ih member).imp_left (List.mem_append_right _)
  | take _ _ insideIh restIh =>
    rcases List.mem_append.mp member with here | later
    · exact (insideIh here).imp_left (List.mem_append_left _)
    · exact (restIh later).imp_left (List.mem_append_right _)
  | some named _ ih =>
    rcases List.mem_cons.mp member with same | later
    · cases same
      exact .inr ⟨_, named⟩
    · exact (ih later).imp_left (List.mem_append_right _)

/-- Where something is never left out, no sequence is empty. -/
theorem ne_nil (spelled : Spells repetitions elements production)
    (solid : Element.skeleton elements ≠ []) :
    production ≠ [] := by
  rintro rfl
  exact solid (List.sublist_nil.mp spelled.skeleton_sublist)

end Spells

/-- The outer repetitions of the row have names, and whatever others get names later, all that it
spells is good. -/
structure Covers (repetitions : Repetitions) (elements : List Element)
    (Good : Production → Prop) : Prop where
  named : ∀ body ∈ rowOuter elements, ∃ name, (body, name) ∈ repetitions
  all : ∀ more, repetitions ⊆ more → (more.map (·.1)).Nodup →
    ∀ production, Spells more elements production → Good production

theorem Covers.mono {repetitions more : Repetitions} {elements : List Element}
    {Good Better : Production → Prop} (covers : Covers repetitions elements Good)
    (within : repetitions ⊆ more) (better : ∀ production, Good production → Better production) :
    Covers more elements Better where
  named body member := (covers.named body member).imp fun _ known => within known
  all later inside distinct production spelled :=
    better production
      (covers.all later (List.Subset.trans within inside) distinct production spelled)

/-! ### The productions of an expansion -/

namespace Expansion

/-- The production is one of those of the name. -/
def Has (expansion : Expansion) (name : String) (production : Production) : Prop :=
  ∃ known, (name, known) ∈ expansion.productions ∧ production ∈ known

/-- Where a production comes from. -/
inductive Origin (alternatives : List Alternative) (repetitions : Repetitions) (name : String) :
    Production → Prop where
  | alternative {alternative : Alternative} {production : Production}
      (member : alternative ∈ alternatives) (named : alternative.name = name)
      (spelled : Spells repetitions alternative.elements production) :
    Origin alternatives repetitions name production
  | once {body : List Element} {production : Production} (named : (body, name) ∈ repetitions)
      (spelled : Spells repetitions body production) :
    Origin alternatives repetitions name production
  | again {body : List Element} {production : Production} (named : (body, name) ∈ repetitions)
      (spelled : Spells repetitions body production) :
    Origin alternatives repetitions name (.rule name :: production)

theorem Origin.mono {alternatives : List Alternative} {repetitions more : Repetitions}
    {name : String} {production : Production}
    (origin : Origin alternatives repetitions name production) (within : repetitions ⊆ more) :
    Origin alternatives more name production := by
  cases origin with
  | alternative member named spelled => exact .alternative member named (spelled.mono within)
  | once named spelled => exact .once (within named) (spelled.mono within)
  | again named spelled => exact .again (within named) (spelled.mono within)

/-- Every production comes from an alternative or from a repetition in one, and the repetitions are
numbered through, no two of them with one body. -/
structure Sound (alternatives : List Alternative) (expansion : Expansion) : Prop where
  origins : ∀ name production, expansion.Has name production →
    Origin alternatives expansion.repetitions name production
  numbered : expansion.repetitions.map (·.2) =
    (List.range expansion.repetitions.length).map fun i => repetitionPrefix ++ toString (i + 1)
  inside : ∀ entry ∈ expansion.repetitions,
    entry.1 ∈ alternatives.flatMap fun alternative => rowBodies alternative.elements
  distinct : (expansion.repetitions.map (·.1)).Nodup

/-- Whatever the body of the repetition spells is among the productions of its name, on its own and
behind the name. -/
abbrev Repeats (expansion : Expansion) (repetitions : Repetitions)
    (entry : List Element × String) : Prop :=
  Covers repetitions entry.1 fun production =>
    expansion.Has entry.2 production ∧ expansion.Has entry.2 (.rule entry.2 :: production)

/-- What a step of an expansion changes: productions and repetitions are added, and each new
repetition has all its productions. -/
structure Grows (alternatives : List Alternative) (before after : Expansion) : Prop where
  repetitions : before.repetitions <+: after.repetitions
  productions : ∀ name production, before.Has name production → after.Has name production
  repeats : ∀ entry ∈ after.repetitions,
    entry ∈ before.repetitions ∨ after.Repeats after.repetitions entry
  sound : before.Sound alternatives → after.Sound alternatives

variable {alternatives : List Alternative} {before between after expansion : Expansion}
  {name other : String} {production : Production}

theorem Grows.refl (alternatives : List Alternative) (expansion : Expansion) :
    Grows alternatives expansion expansion :=
  ⟨List.prefix_rfl, fun _ _ has => has, fun _ member => .inl member, fun sound => sound⟩

theorem Grows.trans (first : Grows alternatives before between)
    (second : Grows alternatives between after) : Grows alternatives before after where
  repetitions := first.repetitions.trans second.repetitions
  productions name production has := second.productions _ _ (first.productions _ _ has)
  repeats entry member := by
    rcases second.repeats entry member with old | new
    · refine (first.repeats entry old).imp_right fun covers =>
        covers.mono second.repetitions.subset fun production ⟨once, again⟩ => ?_
      exact ⟨second.productions _ _ once, second.productions _ _ again⟩
    · exact .inr new
  sound sound := second.sound (first.sound sound)

/-- Inserting a production adds it to those of the name. -/
theorem has_insert {known : List (String × List Production)} {added : Production} :
    (∃ sides, (other, sides) ∈ insert name added known ∧ production ∈ sides) ↔
      (∃ sides, (other, sides) ∈ known ∧ production ∈ sides) ∨
        other = name ∧ production = added := by
  induction known with
  | nil => simp [insert]
  | cons entry rest ih =>
    obtain ⟨first, sides⟩ := entry
    rw [insert]
    split
    · next same =>
      subst same
      simp only [List.mem_cons, Prod.mk.injEq]
      constructor
      · rintro ⟨sides', ⟨rfl, rfl⟩ | later, member⟩
        · split at member
          · exact .inl ⟨sides, .inl ⟨rfl, rfl⟩, member⟩
          · rcases List.mem_append.mp member with old | new
            · exact .inl ⟨sides, .inl ⟨rfl, rfl⟩, old⟩
            · exact .inr ⟨rfl, List.mem_singleton.mp new⟩
        · exact .inl ⟨sides', .inr later, member⟩
      · rintro (⟨sides', ⟨rfl, rfl⟩ | later, member⟩ | ⟨rfl, rfl⟩)
        · refine ⟨_, .inl ⟨rfl, rfl⟩, ?_⟩
          split
          · exact member
          · exact List.mem_append_left _ member
        · exact ⟨sides', .inr later, member⟩
        · refine ⟨_, .inl ⟨rfl, rfl⟩, ?_⟩
          split
          · next present => exact present
          · exact List.mem_append_right _ (List.mem_singleton_self _)
    · simp only [List.mem_cons, or_and_right, exists_or, ih, or_assoc]

/-- The expansion with all the productions added to the name. -/
def addEach (name : String) (productions : List Production) (expansion : Expansion) : Expansion :=
  productions.foldl (fun e p => e.add name p) expansion

theorem has_addEach {productions : List Production} :
    (addEach name productions expansion).Has other production ↔
      expansion.Has other production ∨ other = name ∧ production ∈ productions := by
  induction productions generalizing expansion with
  | nil => simp [addEach]
  | cons added productions ih =>
    rw [addEach, List.foldl_cons]
    refine ih.trans ?_
    rw [Has, add, has_insert, List.mem_cons, and_or_left, ← or_assoc]
    rfl

theorem repetitions_addEach (productions : List Production) :
    (addEach name productions expansion).repetitions = expansion.repetitions := by
  induction productions generalizing expansion with
  | nil => rfl
  | cons added productions ih => exact ih

/-- Adding productions that come from somewhere is sound. -/
theorem grows_addEach {productions : List Production}
    (origins : ∀ production ∈ productions,
      Origin alternatives expansion.repetitions name production) :
    Grows alternatives expansion (addEach name productions expansion) where
  repetitions := by
    rw [repetitions_addEach]
  productions _ _ has := has_addEach.mpr (.inl has)
  repeats _ member := .inl (repetitions_addEach productions ▸ member)
  sound sound := by
    refine ⟨fun other production has => ?_, ?_, ?_, ?_⟩
    · rw [repetitions_addEach]
      rcases has_addEach.mp has with old | ⟨rfl, member⟩
      · exact sound.origins _ _ old
      · exact origins production member
    · rw [repetitions_addEach]
      exact sound.numbered
    · rw [repetitions_addEach]
      exact sound.inside
    · rw [repetitions_addEach]
      exact sound.distinct

end Expansion

/-! ### Steps -/

namespace ExpansionM

open Expansion

variable {alternatives : List Alternative} {before after : Expansion} {name : String}
  {sequences result : List Production} {productionsOf : Production → List Production}

theorem addAll_eq (filled : ∀ sequence ∈ sequences, sequence ≠ []) :
    addAll name productionsOf sequences before =
      .ok ((), addEach name (sequences.flatMap productionsOf) before) := by
  induction sequences generalizing before with
  | nil => rfl
  | cons sequence sequences ih =>
    obtain ⟨here, later⟩ := List.forall_mem_cons.mp filled
    rw [List.flatMap_cons, addEach, List.foldl_append]
    cases sequence with
    | nil => exact absurd rfl here
    | cons part parts => exact ih later

theorem filled_of_addAll {value : Unit}
    (ran : addAll name productionsOf sequences before = .ok (value, after)) :
    ∀ sequence ∈ sequences, sequence ≠ [] := by
  induction sequences generalizing before with
  | nil => simp
  | cons sequence sequences ih =>
    cases sequence with
    | nil =>
      unfold addAll at ran
      cases ran
    | cons part parts =>
      exact List.forall_mem_cons.mpr ⟨by simp, ih ran⟩

theorem run_addAll {value : Unit}
    (ran : addAll name productionsOf sequences before = .ok (value, after)) :
    after = addEach name (sequences.flatMap productionsOf) before := by
  rw [addAll_eq (filled_of_addAll ran)] at ran
  cases ran
  rfl

theorem mem_withOptional {bodies : List Production} {production : Production} :
    production ∈ withOptional sequences bodies ↔
      ∃ sequence ∈ sequences, production = sequence ∨
        ∃ body ∈ bodies, production = sequence ++ body := by
  simp only [withOptional, List.mem_flatMap, List.mem_cons, List.mem_map, eq_comm]

/-- What a step comes to that puts elements behind sequences. -/
structure Expanded (alternatives : List Alternative) (elements : List Element)
    (sequences : List Production) (before : Expansion) (result : List Production)
    (after : Expansion) : Prop where
  grows : Grows alternatives before after
  spelled : ∀ production ∈ result, ∃ sequence ∈ sequences, ∃ added,
    production = sequence ++ added ∧ Spells after.repetitions elements added
  named : ∀ body ∈ rowOuter elements, ∃ name, (body, name) ∈ after.repetitions
  all : ∀ more, after.repetitions ⊆ more → (more.map (·.1)).Nodup → ∀ sequence ∈ sequences,
    ∀ added, Spells more elements added → sequence ++ added ∈ result

theorem Expanded.covers {elements : List Element}
    (expanded : Expanded alternatives elements [[]] before result after) :
    Covers after.repetitions elements (· ∈ result) where
  named := expanded.named
  all more within distinct production spelled := by
    simpa using expanded.all more within distinct [] (List.mem_singleton_self _) production spelled

/-- The expansion with a name for one more body, which has no productions yet. -/
def withRepetition (body : List Element) (expansion : Expansion) : Expansion :=
  { expansion with
    repetitions := expansion.repetitions ++
      [(body, repetitionPrefix ++ toString (expansion.repetitions.length + 1))] }

theorem sound_withRepetition {body : List Element}
    (inside : body ∈ alternatives.flatMap fun alternative => rowBodies alternative.elements)
    (new : before.repetitions.lookup body = none) (sound : before.Sound alternatives) :
    (withRepetition body before).Sound alternatives where
  origins name production has :=
    (sound.origins name production has).mono (List.subset_append_left _ _)
  numbered := by simp [withRepetition, sound.numbered, List.range_succ]
  inside entry member := by
    rcases List.mem_append.mp member with old | new
    · exact sound.inside entry old
    · rw [List.mem_singleton.mp new]
      exact inside
  distinct := by
    rw [withRepetition, List.map_append, List.nodup_append]
    refine ⟨sound.distinct, List.nodup_singleton _, fun other known last member => ?_⟩
    obtain ⟨⟨_, name⟩, among, rfl⟩ := List.mem_map.mp known
    rw [List.map_singleton, List.mem_singleton] at member
    subst member
    rintro rfl
    simpa using List.lookup_eq_none_iff.mp new _ among

/-- A new repetition of which the body has been expanded has its productions. -/
theorem grows_repeated {body : List Element} {bodies : List Production} {between : Expansion}
    (inside : body ∈ alternatives.flatMap fun alternative => rowBodies alternative.elements)
    (new : before.repetitions.lookup body = none)
    (inner : Expanded alternatives body [[]] (withRepetition body before) bodies between) :
    let name := repetitionPrefix ++ toString (before.repetitions.length + 1)
    Grows alternatives before (addEach name
      (bodies.flatMap fun sequence => [sequence, .rule name :: sequence]) between) := by
  intro name
  have known : (body, name) ∈ between.repetitions :=
    inner.grows.repetitions.subset (List.mem_append_right _ (List.mem_singleton_self _))
  have added : Grows alternatives between (addEach name
      (bodies.flatMap fun sequence => [sequence, .rule name :: sequence]) between) := by
    refine grows_addEach fun production member => ?_
    obtain ⟨sequence, among, member⟩ := List.mem_flatMap.mp member
    obtain ⟨_, single, inside, rfl, spelled⟩ := inner.spelled sequence among
    obtain rfl := List.mem_singleton.mp single
    rcases List.mem_pair.mp member with rfl | rfl
    · exact .once known spelled
    · exact .again known spelled
  have grown := inner.grows.trans added
  refine ⟨(List.prefix_append _ _).trans grown.repetitions,
    fun other production has => grown.productions other production has, fun entry member => ?_,
    fun sound => grown.sound (sound_withRepetition inside new sound)⟩
  rcases grown.repeats entry member with old | covers
  · rcases List.mem_append.mp old with older | last
    · exact .inl older
    · obtain rfl := List.mem_singleton.mp last
      refine .inr (inner.covers.mono added.repetitions.subset fun production among => ?_)
      have both (side : Production) (one : side ∈ [production, .rule name :: production]) :
          (addEach name (bodies.flatMap fun sequence => [sequence, .rule name :: sequence])
            between).Has name side :=
        has_addEach.mpr (.inr ⟨rfl, List.mem_flatMap.mpr ⟨production, among, one⟩⟩)
      exact ⟨both _ List.mem_cons_self, both _ (List.mem_cons_of_mem _ List.mem_cons_self)⟩
  · exact .inr covers

/-- Expanding a repeated group, there is a name for the body already, or the body takes a new one and
is expanded. -/
theorem repeated_cases {body : List Element}
    (ran : appendElement sequences (.repeated body) before = .ok (result, after)) :
    ∃ name, result = withOptional sequences [[.rule name]] ∧
      (before.repetitions.lookup body = some name ∧ after = before ∨
        before.repetitions.lookup body = none ∧
          name = repetitionPrefix ++ toString (before.repetitions.length + 1) ∧
          ∃ bodies between, appendElements [[]] body (withRepetition body before) =
              .ok (bodies, between) ∧
            after = addEach name
              (bodies.flatMap fun sequence => [sequence, .rule name :: sequence]) between) := by
  unfold appendElement at ran
  obtain ⟨_, _, got, rest⟩ := run_bind ran
  cases got
  cases found : before.repetitions.lookup body with
  | some name =>
    simp only [found] at rest
    cases rest
    exact ⟨name, rfl, .inl ⟨rfl, rfl⟩⟩
  | none =>
    simp only [found] at rest
    obtain ⟨name, begun, new, inBody⟩ := run_bind rest
    obtain ⟨bodies, between, inner, adding⟩ := run_bind inBody
    obtain ⟨_, filled, added, ended⟩ := run_bind adding
    cases new
    cases ended
    exact ⟨_, rfl, .inr ⟨rfl, rfl, bodies, between, inner, run_addAll added⟩⟩

/-- A single part is put behind every sequence. -/
theorem expanded_part {element : Element} {part : Part} (flat : outer element = [])
    (spells : ∀ repetitions production,
      Spells repetitions [element] production ↔ production = [part]) :
    Expanded alternatives [element] sequences before (sequences.map (· ++ [part])) before := by
  refine ⟨.refl .., fun production member => ?_, by simp [rowOuter, flat], ?_⟩
  · obtain ⟨sequence, known, rfl⟩ := List.mem_map.mp member
    exact ⟨sequence, known, _, rfl, (spells _ _).mpr rfl⟩
  · rintro more - - sequence member added spelled
    rw [(spells _ _).mp spelled]
    exact List.mem_map_of_mem member

/-- What an optional body expands to is put behind every sequence, or nothing is. -/
theorem expanded_optional {body : List Element} {bodies : List Production}
    (inner : Expanded alternatives body [[]] before bodies after) :
    Expanded alternatives [.optional body] sequences before (withOptional sequences bodies)
      after := by
  refine ⟨inner.grows, fun production member => ?_, by simpa [rowOuter, outer] using inner.named, ?_⟩
  · obtain ⟨sequence, known, rfl | ⟨body', found, rfl⟩⟩ := mem_withOptional.mp member
    · exact ⟨_, known, [], by simp, .skip _ .nil⟩
    · obtain ⟨_, single, added, rfl, spelled⟩ := inner.spelled body' found
      obtain rfl := List.mem_singleton.mp single
      exact ⟨sequence, known, added, by simp, by simpa using Spells.take spelled .nil⟩
  · rintro more within distinct sequence member added spelled
    refine mem_withOptional.mpr ⟨sequence, member, ?_⟩
    cases spelled with
    | skip _ rest =>
      cases rest
      exact .inl (List.append_nil _)
    | @take _ _ taken _ inside rest =>
      cases rest
      rw [List.append_nil]
      exact .inr ⟨taken, inner.covers.all more within distinct taken inside, rfl⟩

/-- The name of a repetition is put behind every sequence, or nothing is. -/
theorem expanded_repeated {body : List Element} (grows : Grows alternatives before after)
    (known : (body, name) ∈ after.repetitions) :
    Expanded alternatives [.repeated body] sequences before
      (withOptional sequences [[.rule name]]) after := by
  refine ⟨grows, fun production member => ?_, ?_, ?_⟩
  · obtain ⟨sequence, among, rfl | ⟨body', found, rfl⟩⟩ := mem_withOptional.mp member
    · exact ⟨_, among, [], by simp, .never _ .nil⟩
    · rw [List.mem_singleton.mp found]
      exact ⟨sequence, among, _, rfl, .some known .nil⟩
  · simpa [rowOuter, outer] using ⟨name, known⟩
  · rintro more within distinct sequence member added spelled
    refine mem_withOptional.mpr ⟨sequence, member, ?_⟩
    cases spelled with
    | never _ rest =>
      cases rest
      exact .inl (List.append_nil _)
    | @some _ _ other _ named rest =>
      cases rest
      have same : (body, other) = (body, name) :=
        List.inj_on_of_nodup_map distinct named (within known) rfl
      exact .inr ⟨_, List.mem_singleton_self _, by rw [(Prod.mk.inj same).2]⟩

mutual

theorem expanded_element (sequences : List Production) : (element : Element) →
    {before after : Expansion} → {result : List Production} →
    (∀ body ∈ element.bodies,
      body ∈ alternatives.flatMap fun alternative => rowBodies alternative.elements) →
    appendElement sequences element before = .ok (result, after) →
    Expanded alternatives [element] sequences before result after
  | .token kind, before, after, result, inside, ran => by
    cases ran
    refine expanded_part rfl fun repetitions production => ⟨?_, ?_⟩
    · rintro (_ | ⟨_, ⟨⟩⟩)
      rfl
    · rintro rfl
      exact .token kind .nil
  | .rule name, before, after, result, inside, ran => by
    cases ran
    refine expanded_part rfl fun repetitions production => ⟨?_, ?_⟩
    · rintro (_ | _ | ⟨_, ⟨⟩⟩)
      rfl
    · rintro rfl
      exact .rule name .nil
  | .optional body, before, after, result, inside, ran => by
    obtain ⟨bodies, between, inner, rest⟩ := run_bind ran
    cases rest
    exact expanded_optional (expanded_row [[]] body inside inner)
  | .repeated body, before, after, result, inside, ran => by
    obtain ⟨name, rfl, ⟨found, rfl⟩ | ⟨new, rfl, bodies, between, inner, rfl⟩⟩ :=
      repeated_cases ran
    · obtain ⟨ahead, behind, same, -⟩ := List.lookup_eq_some_iff.mp found
      exact expanded_repeated (.refl ..) (by simp [same])
    · have growth := expanded_row [[]] body
        (fun other member => inside other (List.mem_cons_of_mem _ member)) inner
      refine expanded_repeated (grows_repeated (inside body List.mem_cons_self) new growth) ?_
      rw [repetitions_addEach]
      exact growth.grows.repetitions.subset
        (List.mem_append_right _ (List.mem_singleton_self _))

theorem expanded_row (sequences : List Production) : (elements : List Element) →
    {before after : Expansion} → {result : List Production} →
    (∀ body ∈ rowBodies elements,
      body ∈ alternatives.flatMap fun alternative => rowBodies alternative.elements) →
    appendElements sequences elements before = .ok (result, after) →
    Expanded alternatives elements sequences before result after
  | [], before, after, result, inside, ran => by
    cases ran
    refine ⟨.refl .., fun production member => ⟨production, member, [], by simp, .nil⟩,
      by simp [rowOuter], ?_⟩
    rintro - - - sequence member _ ⟨⟩
    rwa [List.append_nil]
  | element :: elements, before, after, result, inside, ran => by
    obtain ⟨through, between, first, rest⟩ := run_bind ran
    have here := expanded_element sequences element
      (fun body member => inside body (List.mem_append_left _ member)) first
    have later := expanded_row through elements
      (fun body member => inside body (List.mem_append_right _ member)) rest
    refine ⟨here.grows.trans later.grows, fun production member => ?_, fun body member => ?_, ?_⟩
    · obtain ⟨middle, known, added, rfl, spelled⟩ := later.spelled production member
      obtain ⟨sequence, among, front, rfl, spelled'⟩ := here.spelled middle known
      refine ⟨sequence, among, front ++ added, List.append_assoc .., ?_⟩
      exact (spelled'.mono later.grows.repetitions.subset).append spelled
    · rcases List.mem_append.mp member with among | among
      · obtain ⟨name, known⟩ := here.named body (by simpa [rowOuter] using among)
        exact ⟨name, later.grows.repetitions.subset known⟩
      · exact later.named body among
    · rintro more within distinct sequence member added spelled
      obtain ⟨front, back, rfl, first, others⟩ := spelled.split
      rw [← List.append_assoc]
      refine later.all more within distinct _ ?_ back others
      exact here.all more (List.Subset.trans later.grows.repetitions.subset within) distinct
        sequence member front first

end

/-- Expanding alternatives adds all productions of each. -/
theorem expanded_alternatives (some : List Alternative) (within : some ⊆ alternatives)
    {value : Unit} (ran : (some.forM addAlternative) before = .ok (value, after)) :
    Grows alternatives before after ∧
      ∀ alternative ∈ some,
        Covers after.repetitions alternative.elements (after.Has alternative.name) := by
  induction some generalizing before with
  | nil =>
    cases ran
    exact ⟨.refl .., by simp⟩
  | cons alternative some ih =>
    obtain ⟨here, rest⟩ := List.cons_subset.mp within
    obtain ⟨_, between, first, later⟩ := run_bind ran
    obtain ⟨sequences, expanded, inner, added⟩ := run_bind first
    have growth := expanded_row [[]] alternative.elements
      (fun body member => List.mem_flatMap.mpr ⟨alternative, here, member⟩) inner
    obtain rfl := run_addAll added
    have addition : Grows alternatives expanded (addEach alternative.name
        (sequences.flatMap fun sequence => [sequence]) expanded) := by
      refine grows_addEach fun production member => ?_
      rw [List.flatMap_singleton'] at member
      obtain ⟨_, single, production, rfl, spelled⟩ := growth.spelled production member
      rw [List.mem_singleton.mp single, List.nil_append]
      exact .alternative here rfl spelled
    obtain ⟨further, others⟩ := ih rest later
    refine ⟨(growth.grows.trans addition).trans further, List.forall_mem_cons.mpr ⟨?_, others⟩⟩
    refine growth.covers.mono (addition.trans further).repetitions.subset
      fun production among => further.productions _ _ (has_addEach.mpr (.inr ⟨rfl, ?_⟩))
    rwa [List.flatMap_singleton']

end ExpansionM

namespace Expansion

variable {alternatives : List Alternative} {expansion : Expansion}

/-- What is known of an expansion: where its productions come from, and which it has. -/
structure Faithful (alternatives : List Alternative) (expansion : Expansion) : Prop where
  sound : expansion.Sound alternatives
  repeats : ∀ entry ∈ expansion.repetitions, expansion.Repeats expansion.repetitions entry
  covers : ∀ alternative ∈ alternatives,
    Covers expansion.repetitions alternative.elements (expansion.Has alternative.name)

theorem faithful_of_ofAlternatives? (expanded : ofAlternatives? alternatives = .ok expansion) :
    expansion.Faithful alternatives := by
  obtain ⟨grows, covers⟩ := ExpansionM.expanded_alternatives alternatives (List.Subset.refl _)
    (ExpansionM.ofAlternatives?_eq_ok.mp expanded)
  refine ⟨grows.sound ⟨?_, rfl, by simp, List.nodup_nil⟩, fun entry member => ?_, covers⟩
  · rintro name production ⟨sides, none, -⟩
    cases none
  · exact (grows.repeats entry member).resolve_left (List.not_mem_nil)

/-- The productions of an expansion are exactly those that come from somewhere. -/
theorem Faithful.has_iff (faithful : expansion.Faithful alternatives) {name : String}
    {production : Production} : expansion.Has name production ↔
      Origin alternatives expansion.repetitions name production := by
  refine ⟨faithful.sound.origins name production, fun origin => ?_⟩
  have same := List.Subset.refl expansion.repetitions
  have distinct := faithful.sound.distinct
  cases origin with
  | alternative member named spelled =>
    exact named ▸ (faithful.covers _ member).all _ same distinct _ spelled
  | once named spelled => exact ((faithful.repeats _ named).all _ same distinct _ spelled).1
  | again named spelled => exact ((faithful.repeats _ named).all _ same distinct _ spelled).2

/-- The names in a production are those that alternatives refer to, or stand for repetitions. -/
theorem Sound.mem_names (sound : expansion.Sound alternatives) {name other : String}
    {production : Production} (has : expansion.Has name production)
    (member : .rule other ∈ production) :
    (∃ alternative ∈ alternatives, other ∈ bodyNames alternative.elements) ∨
      ∃ body, (body, other) ∈ expansion.repetitions := by
  have inBody {body : List Element} {inner : Production} (named : (body, name) ∈ expansion.repetitions)
      (spelled : Spells expansion.repetitions body inner) (member : .rule other ∈ inner) :
      (∃ alternative ∈ alternatives, other ∈ bodyNames alternative.elements) ∨
        ∃ body, (body, other) ∈ expansion.repetitions := by
    refine (spelled.mem_names member).imp_left fun within => ?_
    obtain ⟨alternative, among, inside⟩ := List.mem_flatMap.mp (sound.inside _ named)
    exact ⟨alternative, among, bodyNames_of_mem_rowBodies _ inside within⟩
  cases sound.origins name production has with
  | alternative among _ spelled =>
    exact (spelled.mem_names member).imp_left fun within => ⟨_, among, within⟩
  | once named spelled => exact inBody named spelled member
  | again named spelled =>
    rcases List.mem_cons.mp member with same | later
    · cases same
      exact .inr ⟨_, named⟩
    · exact inBody named spelled later

/-- The names of repetitions begin as they should. -/
theorem Sound.prefix_of_mem (sound : expansion.Sound alternatives) {body : List Element}
    {name : String} (member : (body, name) ∈ expansion.repetitions) :
    repetitionPrefix.toList.isPrefixOf name.toList := by
  have numbered : name ∈ expansion.repetitions.map (·.2) := List.mem_map_of_mem member
  rw [sound.numbered] at numbered
  obtain ⟨i, -, rfl⟩ := List.mem_map.mp numbered
  rw [List.isPrefixOf_iff_prefix, String.toList_append]
  exact List.prefix_append _ _

/-- No two repetitions have one name. -/
theorem Sound.body_inj (sound : expansion.Sound alternatives) {body other : List Element}
    {name : String} (first : (body, name) ∈ expansion.repetitions)
    (second : (other, name) ∈ expansion.repetitions) : body = other := by
  have distinct : (expansion.repetitions.map (·.2)).Nodup := by
    rw [sound.numbered]
    refine List.nodup_range.map fun i j same => ?_
    exact Nat.succ.inj (Nat.repr_inj.mp ((String.append_right_inj _).mp same))
  exact congrArg Prod.fst (List.inj_on_of_nodup_map distinct first second rfl)

end Expansion

/-! ### Expansion succeeds -/

namespace ExpansionM

open Expansion

variable {alternatives : List Alternative} {β γ : Type} {before after between : Expansion}

theorem bind_ok {first : ExpansionM β} {next : β → ExpansionM γ} {value : β}
    (ran : first before = .ok (value, between)) : (first >>= next) before = next value between := by
  change (first before >>= fun (value, between) => next value between) = _
  rw [ran]
  rfl

/-- Whether something is never left out of the body. -/
def Solid (alternatives : List Alternative) (body : List Element) : Prop :=
  body ∈ alternatives.flatMap (fun alternative => rowBodies alternative.elements) ∧
    skeleton body ≠ []

/-- Nothing that is put behind an empty sequence is empty if something is never left out. -/
theorem Expanded.filled {elements : List Element} {result : List Production}
    (expanded : Expanded alternatives elements [[]] before result after)
    (solid : skeleton elements ≠ []) : ∀ sequence ∈ result, sequence ≠ [] := by
  intro sequence member
  obtain ⟨_, single, added, rfl, spelled⟩ := expanded.spelled sequence member
  rw [List.mem_singleton.mp single, List.nil_append]
  exact spelled.ne_nil solid

mutual

theorem exists_appendElement (sequences : List Production) : (element : Element) →
    (∀ body ∈ element.bodies, Solid alternatives body) → (before : Expansion) →
    ∃ result after, appendElement sequences element before = .ok (result, after)
  | .token kind, solid, before => ⟨_, _, rfl⟩
  | .rule name, solid, before => ⟨_, _, rfl⟩
  | .optional body, solid, before => by
    obtain ⟨bodies, between, inner⟩ := exists_appendElements [[]] body solid before
    exact ⟨_, _, bind_ok inner⟩
  | .repeated body, solid, before => by
    unfold appendElement
    cases found : before.repetitions.lookup body with
    | some name =>
      refine ⟨withOptional sequences [[.rule name]], before, (bind_ok rfl).trans ?_⟩
      simp only [found]
      rfl
    | none =>
      have inside := fun other member => solid other (List.mem_cons_of_mem body member)
      obtain ⟨bodies, between, inner⟩ :=
        exists_appendElements [[]] body inside (withRepetition body before)
      have expanded := expanded_row [[]] body (fun other member => (inside other member).1) inner
      have filled := expanded.filled (solid body List.mem_cons_self).2
      let name := repetitionPrefix ++ toString (before.repetitions.length + 1)
      refine ⟨withOptional sequences [[.rule name]], addEach name
        (bodies.flatMap fun sequence => [sequence, .rule name :: sequence]) between,
        (bind_ok rfl).trans ?_⟩
      simp only [found]
      exact (bind_ok rfl).trans ((bind_ok inner).trans (bind_ok (addAll_eq filled)))

theorem exists_appendElements (sequences : List Production) : (elements : List Element) →
    (∀ body ∈ rowBodies elements, Solid alternatives body) → (before : Expansion) →
    ∃ result after, appendElements sequences elements before = .ok (result, after)
  | [], solid, before => ⟨_, _, rfl⟩
  | element :: elements, solid, before => by
    obtain ⟨through, between, first⟩ := exists_appendElement sequences element
      (fun body member => solid body (List.mem_append_left _ member)) before
    obtain ⟨result, after, rest⟩ := exists_appendElements through elements
      (fun body member => solid body (List.mem_append_right _ member)) between
    exact ⟨result, after, (bind_ok first).trans rest⟩

end

theorem exists_alternatives (some : List Alternative) (within : some ⊆ alternatives)
    (solid : ∀ alternative ∈ alternatives, skeleton alternative.elements ≠ [] ∧
      ∀ body ∈ rowBodies alternative.elements, skeleton body ≠ []) (before : Expansion) :
    ∃ after, (some.forM addAlternative) before = .ok ((), after) := by
  induction some generalizing before with
  | nil => exact ⟨before, rfl⟩
  | cons alternative some ih =>
    obtain ⟨here, rest⟩ := List.cons_subset.mp within
    obtain ⟨filled, bodies⟩ := solid alternative here
    have inside : ∀ body ∈ rowBodies alternative.elements, Solid alternatives body :=
      fun body member => ⟨List.mem_flatMap.mpr ⟨alternative, here, member⟩, bodies body member⟩
    obtain ⟨sequences, between, inner⟩ :=
      exists_appendElements [[]] alternative.elements inside before
    have expanded := expanded_row [[]] alternative.elements
      (fun body member => (inside body member).1) inner
    have added : addAll alternative.name (fun sequence => [sequence]) sequences between = _ :=
      addAll_eq (expanded.filled filled)
    obtain ⟨after, later⟩ := ih rest _
    exact ⟨after, (bind_ok ((bind_ok inner).trans added)).trans later⟩

/-- Alternatives are expanded if something is never left out of them and of their repetitions. -/
theorem exists_ofAlternatives?
    (solid : ∀ alternative ∈ alternatives, skeleton alternative.elements ≠ [] ∧
      ∀ body ∈ rowBodies alternative.elements, skeleton body ≠ []) :
    ∃ expansion, Expansion.ofAlternatives? alternatives = .ok expansion := by
  obtain ⟨after, ran⟩ := exists_alternatives alternatives (List.Subset.refl _) solid {}
  exact ⟨after, ofAlternatives?_eq_ok.mpr ran⟩

end ExpansionM

/-- No production is empty if something is never left out of the alternatives and their
repetitions. -/
theorem Expansion.Sound.ne_nil {alternatives : List Alternative} {expansion : Expansion}
    {name : String} {production : Production} (sound : expansion.Sound alternatives)
    (solid : ∀ alternative ∈ alternatives, skeleton alternative.elements ≠ [] ∧
      ∀ body ∈ rowBodies alternative.elements, skeleton body ≠ [])
    (has : expansion.Has name production) : production ≠ [] := by
  cases sound.origins name production has with
  | alternative member _ spelled => exact spelled.ne_nil (solid _ member).1
  | once named spelled =>
    obtain ⟨alternative, member, inside⟩ := List.mem_flatMap.mp (sound.inside _ named)
    exact spelled.ne_nil ((solid alternative member).2 _ inside)
  | again => exact List.cons_ne_nil _ _

namespace GrammarDraft

open Expansion Reachability

variable {draft : GrammarDraft} {start : String}

/-- A draft from which the unreachable is left out is built if its alternatives refer to names of
alternatives only, and something is never left out of them and of their repetitions. -/
theorem exists_build_of_solid
    (named : (draft.start <|> draft.alternatives.head?.map (·.name)) = some start)
    (pruned : draft.prune) (begins : start ∈ draft.alternatives.map (·.name))
    (solid : ∀ alternative ∈ draft.alternatives, skeleton alternative.elements ≠ [] ∧
      ∀ body ∈ rowBodies alternative.elements, skeleton body ≠ [])
    (closed : ∀ alternative ∈ draft.alternatives, ∀ name ∈ bodyNames alternative.elements,
      name ∈ draft.alternatives.map (·.name)) :
    ∃ grammar, draft.build = .ok grammar := by
  obtain ⟨expansion, expanded⟩ := ExpansionM.exists_ofAlternatives? solid
  have faithful := faithful_of_ofAlternatives? expanded
  have known (name : String) (production : Production) (has : expansion.Has name production) :
      name ∈ expansion.productions.map (·.1) := by
    obtain ⟨sides, member, -⟩ := has
    exact List.mem_map_of_mem member
  have defined (name : String) (among : name ∈ draft.alternatives.map (·.name)) :
      name ∈ expansion.productions.map (·.1) := by
    obtain ⟨alternative, member, rfl⟩ := List.mem_map.mp among
    exact known _ _ (faithful.has_iff.mpr (.alternative member rfl (.skeleton _ _)))
  have filled (entry : String × List Production) (member : entry ∈ expansion.productions)
      (production : Production) (among : production ∈ entry.2) : production ≠ [] :=
    faithful.sound.ne_nil solid ⟨entry.2, member, among⟩
  have refers (name other : String) (refers : Refers expansion.productions name other) :
      other ∈ expansion.productions.map (·.1) := by
    obtain ⟨sides, member, inside⟩ := refers
    obtain ⟨production, among, inside⟩ := mem_references.mp inside
    rcases faithful.sound.mem_names ⟨sides, member, among⟩ inside with
      ⟨alternative, member, within⟩ | ⟨body, repeated⟩
    · exact defined other (closed alternative member other within)
    · exact known other _ (faithful.has_iff.mpr (.once repeated (.skeleton _ _)))
  obtain ⟨grammar, built, -⟩ :=
    exists_build_of_prune named pruned expanded (defined start begins) filled refers
  exact ⟨grammar, built⟩

end GrammarDraft

end JavaFrontend
