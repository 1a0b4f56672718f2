import JavaFrontend.Proofs.Grammar.Repetitions

/-!
Which alternatives are refused for being empty. An optional group can be left out and a repeated one
can occur no times, so a row can stand for nothing at any depth of groups. Expansion fails for an
empty production exactly if some alternative, or the body of some repetition in one, can stand for
nothing, and for no other reason (`empty_production_iff`).
-/

namespace JavaFrontend

open Element

/-- The parts are a sequence that the elements stand for: a token and a name stand for themselves,
an optional group for one occurrence of its body or none, and a repeated group for any number of
them. -/
inductive Stands : List Element → Production → Prop where
  | nil : Stands [] []
  | token (kind : Kind) {elements : List Element} {parts : Production}
      (rest : Stands elements parts) : Stands (.token kind :: elements) (.token kind :: parts)
  | rule (name : String) {elements : List Element} {parts : Production}
      (rest : Stands elements parts) : Stands (.rule name :: elements) (.rule name :: parts)
  | absent (body : List Element) {elements : List Element} {parts : Production}
      (rest : Stands elements parts) : Stands (.optional body :: elements) parts
  | present {body elements : List Element} {inner parts : Production}
      (inside : Stands body inner) (rest : Stands elements parts) :
    Stands (.optional body :: elements) (inner ++ parts)
  | times {body elements : List Element} {parts : Production} (occurrences : List Production)
      (each : ∀ inner ∈ occurrences, Stands body inner) (rest : Stands elements parts) :
    Stands (.repeated body :: elements) (occurrences.flatten ++ parts)

/-- A row stands for what is never left out of it. -/
theorem Stands.skeleton : (elements : List Element) → Stands elements (Element.skeleton elements)
  | [] => .nil
  | .token kind :: elements => .token kind (Stands.skeleton elements)
  | .rule name :: elements => .rule name (Stands.skeleton elements)
  | .optional body :: elements => .absent body (Stands.skeleton elements)
  | .repeated _ :: elements => .times [] (by simp) (Stands.skeleton elements)

/-- What is never left out is in all that the row stands for. -/
theorem Stands.skeleton_sublist {elements : List Element} {parts : Production}
    (stands : Stands elements parts) : (Element.skeleton elements).Sublist parts := by
  induction stands with
  | nil => exact .slnil
  | token _ _ ih => exact ih.cons_cons _
  | rule _ _ ih => exact ih.cons_cons _
  | absent _ _ ih => exact ih
  | present _ _ _ ih => exact ih.trans (List.sublist_append_right _ _)
  | times _ _ _ _ ih => exact ih.trans (List.sublist_append_right _ _)

/-- A row can stand for nothing if and only if all of it can be left out. -/
theorem stands_nil_iff {elements : List Element} : Stands elements [] ↔ skeleton elements = [] :=
  ⟨fun stands => List.sublist_nil.mp stands.skeleton_sublist,
    fun none => none ▸ Stands.skeleton elements⟩

/-! ### What expansion refuses -/

/-- No production is empty. -/
def Expansion.Filled (expansion : Expansion) : Prop :=
  ∀ name production, expansion.Has name production → production ≠ []

theorem Expansion.Filled.addEach {expansion : Expansion} (filled : expansion.Filled)
    {name : String} {productions : List Production}
    (added : ∀ production ∈ productions, production ≠ []) :
    (addEach name productions expansion).Filled := by
  intro other production has
  rcases has_addEach.mp has with old | ⟨-, member⟩
  · exact filled other production old
  · exact added production member

namespace ExpansionM

open Expansion

variable {β γ : Type}

/-- Begun without empty productions, the computation leaves none, or fails because of one. -/
def RefusesEmpty (computation : ExpansionM β) : Prop :=
  ∀ before : Expansion, before.Filled →
    match computation before with
    | .ok (_, after) => after.Filled
    | .error reason => ∃ name, reason = .emptyProduction name

theorem refusesEmpty_pure (value : β) : RefusesEmpty (pure value) := fun _ filled => filled

theorem refusesEmpty_get : RefusesEmpty (get : ExpansionM Expansion) := fun _ filled => filled

theorem refusesEmpty_bind {first : ExpansionM β} {next : β → ExpansionM γ}
    (head : RefusesEmpty first) (tail : ∀ value, RefusesEmpty (next value)) :
    RefusesEmpty (first >>= next) := by
  intro before filled
  have here := head before filled
  change match first before >>= fun (result, between) => next result between with
    | .ok (_, after) => after.Filled
    | .error reason => ∃ name, reason = .emptyProduction name
  cases ran : first before with
  | error reason =>
    rw [ran] at here
    exact here
  | ok pair =>
    rw [ran] at here
    exact tail pair.1 pair.2 here

/-- An empty sequence is refused, and no production of another one is empty. -/
theorem refusesEmpty_addAll (name : String) {productionsOf : Production → List Production}
    (longer : ∀ sequence, sequence ≠ [] → ∀ production ∈ productionsOf sequence, production ≠ [])
    (sequences : List Production) : RefusesEmpty (addAll name productionsOf sequences) := by
  induction sequences with
  | nil => exact refusesEmpty_pure ()
  | cons sequence sequences ih =>
    cases sequence with
    | nil => exact fun _ _ => ⟨name, rfl⟩
    | cons part parts =>
      intro before filled
      exact ih _ (filled.addEach (longer (part :: parts) (by simp)))

mutual

theorem refusesEmpty_appendElement (sequences : List Production) :
    (element : Element) → RefusesEmpty (appendElement sequences element)
  | .token _ => refusesEmpty_pure _
  | .rule _ => refusesEmpty_pure _
  | .optional body =>
    refusesEmpty_bind (refusesEmpty_appendElements [[]] body) fun _ => refusesEmpty_pure _
  | .repeated body => by
    unfold appendElement
    refine refusesEmpty_bind refusesEmpty_get fun expansion => ?_
    dsimp only
    split
    · exact refusesEmpty_bind (refusesEmpty_pure _) fun _ => refusesEmpty_pure _
    · have named : RefusesEmpty (newRepetition body) := fun before filled => filled
      refine refusesEmpty_bind named fun name =>
        refusesEmpty_bind (refusesEmpty_appendElements [[]] body) fun bodies =>
          refusesEmpty_bind (refusesEmpty_addAll name ?_ bodies) fun _ =>
            refusesEmpty_bind (refusesEmpty_pure _) fun _ => refusesEmpty_pure _
      intro sequence some
      simp [some]

theorem refusesEmpty_appendElements (sequences : List Production) :
    (elements : List Element) → RefusesEmpty (appendElements sequences elements)
  | [] => refusesEmpty_pure _
  | element :: rest =>
    refusesEmpty_bind (refusesEmpty_appendElement sequences element) fun sequences =>
      refusesEmpty_appendElements sequences rest

end

theorem refusesEmpty_addAlternatives (alternatives : List Alternative) :
    RefusesEmpty (alternatives.forM addAlternative) := by
  induction alternatives with
  | nil => exact refusesEmpty_pure ()
  | cons alternative alternatives ih =>
    refine refusesEmpty_bind (refusesEmpty_bind (refusesEmpty_appendElements [[]] _) fun _ =>
      refusesEmpty_addAll _ ?_ _) fun _ => ih
    intro sequence some
    simp [some]

end ExpansionM

namespace Expansion

variable {alternatives : List Alternative} {expansion : Expansion}

/-- Alternatives have an expansion without empty productions, or are refused for an empty one. -/
theorem filled_or_empty (alternatives : List Alternative) :
    (∃ expansion, ofAlternatives? alternatives = .ok expansion ∧ expansion.Filled) ∨
      ∃ name, ofAlternatives? alternatives = .error (.emptyProduction name) := by
  have none : Expansion.Filled {} := by
    rintro name production ⟨_, ⟨⟩, -⟩
  have run : ofAlternatives? alternatives =
      ((alternatives.forM ExpansionM.addAlternative) {} >>= fun pair => pure pair.2) := rfl
  have refuses := ExpansionM.refusesEmpty_addAlternatives alternatives {} none
  rw [run]
  cases ran : (alternatives.forM ExpansionM.addAlternative) {} with
  | error reason =>
    rw [ran] at refuses
    obtain ⟨name, rfl⟩ := refuses
    exact .inr ⟨name, rfl⟩
  | ok pair =>
    rw [ran] at refuses
    exact .inl ⟨pair.2, rfl, refuses⟩

theorem filled_of_expanded (expanded : ofAlternatives? alternatives = .ok expansion) :
    expansion.Filled := by
  rcases filled_or_empty alternatives with ⟨other, same, filled⟩ | ⟨name, failed⟩
  · rw [expanded] at same
    cases same
    exact filled
  · rw [expanded] at failed
    cases failed

/-- Some alternative can stand for nothing, or the body of some repetition in one can. -/
def SomeVanish (alternatives : List Alternative) : Prop :=
  ∃ alternative ∈ alternatives, Stands alternative.elements [] ∨
    ∃ body ∈ rowBodies alternative.elements, Stands body []

/-- What is never left out of an alternative or of a repeated body is one of its productions, so if
these are expanded none of them can stand for nothing. -/
theorem not_someVanish_of_expanded (expanded : ofAlternatives? alternatives = .ok expansion) :
    ¬ SomeVanish alternatives := by
  have filled := filled_of_expanded expanded
  have faithful := faithful_of_ofAlternatives? expanded
  rintro ⟨alternative, member, vanishes | ⟨body, inside, vanishes⟩⟩
  · have spelled := Spells.skeleton expansion.repetitions alternative.elements
    rw [stands_nil_iff.mp vanishes] at spelled
    exact filled _ _ (faithful.has_iff.mpr (.alternative member rfl spelled)) rfl
  · have spelled := Spells.skeleton expansion.repetitions body
    rw [stands_nil_iff.mp vanishes] at spelled
    obtain ⟨name, named⟩ :=
      faithful.named_iff.mpr (List.mem_flatMap.mpr ⟨alternative, member, inside⟩)
    exact filled _ _ (faithful.has_iff.mpr (.once named spelled)) rfl

/-- Alternatives have an expansion if and only if nothing of that sort can stand for nothing. -/
theorem exists_iff_not_someVanish :
    (∃ expansion, ofAlternatives? alternatives = .ok expansion) ↔ ¬ SomeVanish alternatives := by
  constructor
  · rintro ⟨expansion, expanded⟩
    exact not_someVanish_of_expanded expanded
  · intro solid
    refine ExpansionM.exists_ofAlternatives? fun alternative member => ⟨?_, fun body inside => ?_⟩
    · exact fun none => solid ⟨alternative, member, .inl (stands_nil_iff.mpr none)⟩
    · exact fun none => solid ⟨alternative, member, .inr ⟨body, inside, stands_nil_iff.mpr none⟩⟩

end Expansion

/-! ### What building refuses -/

theorem Grammar.undefinedReference?_eq_some {grammar : Grammar} {reason : GrammarError}
    (found : grammar.undefinedReference? = some reason) :
    ∃ rule name, reason = .undefinedRule rule name := by
  obtain ⟨rule, -, inRule⟩ := List.exists_of_findSome?_eq_some found
  obtain ⟨part, -, inPart⟩ := List.exists_of_findSome?_eq_some inRule
  cases part with
  | token kind => cases inPart
  | rule name =>
    dsimp only [Part.ruleName?] at inPart
    split at inPart
    · cases inPart
    · cases inPart
      exact ⟨_, _, rfl⟩

/-- A grammar without empty rules is not refused for one. -/
theorem Grammar.fault?_ne_emptyProduction {grammar : Grammar}
    (nonempty : ∀ rule ∈ grammar.rules, rule.parts ≠ []) (name : String) :
    grammar.fault? ≠ some (.emptyProduction name) := by
  have noEmpty : grammar.emptyRule? = none := by
    simp only [emptyRule?, Option.map_eq_none_iff, List.find?_eq_none, Array.mem_toList_iff]
    intro rule known
    simpa using nonempty rule known
  intro fault
  unfold fault? at fault
  split at fault
  · cases fault
  simp only [noEmpty, Option.orElse_eq_orElse, Option.orElse_eq_or, Option.none_or,
    Option.or_eq_some_iff] at fault
  rcases fault with undefined | ⟨-, unreachable⟩
  · obtain ⟨_, _, ⟨⟩⟩ := undefinedReference?_eq_some undefined
  · simp [unreachable?] at unreachable

namespace GrammarDraft

open Expansion

variable {draft : GrammarDraft} {expansion : Expansion} {start : String}

/-- The rules of what a draft describes are not empty if no production is. -/
theorem parts_ne_nil_of_filled (filled : expansion.Filled) {grammar : Grammar}
    (numbered : grammar.collections = number 0 (draft.kept start expansion)) :
    ∀ rule ∈ grammar.rules, rule.parts ≠ [] := by
  intro rule known
  obtain ⟨sides, kept, member⟩ := (mem_rules_iff numbered).mp known
  exact filled rule.name rule.parts ⟨sides, (mem_kept_iff.mp kept).1, member⟩

/-- A draft is refused for an empty production if and only if its alternatives are. -/
theorem build_eq_emptyProduction_iff {name : String} :
    draft.build = .error (.emptyProduction name) ↔
      ofAlternatives? draft.alternatives = .error (.emptyProduction name) := by
  unfold build
  cases named : (draft.start <|> draft.alternatives.head?.map (·.name)) with
  | none =>
    -- Without a start there is no alternative either, and nothing to refuse.
    have empty : draft.alternatives = [] := by
      cases given : draft.start <;> cases alternatives : draft.alternatives <;>
        simp_all
    rw [empty]
    exact iff_of_false nofun nofun
  | some start =>
    rcases filled_or_empty draft.alternatives with ⟨expansion, expanded, filled⟩ | ⟨other, failed⟩
    · rw [expanded]
      refine iff_of_false ?_ nofun
      let grammar : Grammar :=
        { start, collections := number 0 (draft.kept start expansion),
          names := draft.mentioned expansion start }
      have sound : grammar.fault? ≠ some (.emptyProduction name) :=
        Grammar.fault?_ne_emptyProduction (parts_ne_nil_of_filled filled rfl) name
      dsimp only [bind, Except.bind]
      split
      · rename_i fault found
        rintro ⟨⟩
        exact sound found
      · nofun
    · rw [failed]
      exact ⟨fun same => by cases same; rfl, fun same => by cases same; rfl⟩

/-- Empty productions are refused exactly. Alternatives are refused for an empty production if and
only if one of them, or the body of a repetition in one, can stand for nothing. All others are
expanded, and none of their productions is empty, whichever name it is for. The same holds of the
drafts that have the alternatives and of the grammars that are built from them. -/
theorem empty_production_iff (draft : GrammarDraft) :
    ((∃ name, ofAlternatives? draft.alternatives = .error (.emptyProduction name)) ↔
      SomeVanish draft.alternatives) ∧
    ((∃ expansion, ofAlternatives? draft.alternatives = .ok expansion ∧
      ∀ entry ∈ expansion.productions, ∀ production ∈ entry.2, production ≠ []) ↔
      ¬ SomeVanish draft.alternatives) ∧
    ((∃ name, draft.build = .error (.emptyProduction name)) ↔ SomeVanish draft.alternatives) ∧
    ∀ grammar, draft.build = .ok grammar →
      ∀ collection ∈ grammar.collections, ∀ production ∈ collection.productions,
        production ≠ [] := by
  have refused : (∃ name, ofAlternatives? draft.alternatives = .error (.emptyProduction name)) ↔
      SomeVanish draft.alternatives := by
    rcases filled_or_empty draft.alternatives with ⟨expansion, expanded, -⟩ | ⟨name, failed⟩
    · have solid := exists_iff_not_someVanish.mp ⟨expansion, expanded⟩
      exact iff_of_false (by simp [expanded]) solid
    · refine iff_of_true ⟨name, failed⟩ (Classical.not_not.mp fun solid => ?_)
      obtain ⟨expansion, expanded⟩ := exists_iff_not_someVanish.mpr solid
      rw [failed] at expanded
      cases expanded
  refine ⟨refused, ?_, ?_, ?_⟩
  · rw [← exists_iff_not_someVanish]
    refine exists_congr fun expansion => and_iff_left_of_imp fun expanded => ?_
    exact fun entry member production among =>
      filled_of_expanded expanded entry.1 production ⟨_, member, among⟩
  · simp only [build_eq_emptyProduction_iff, refused]
  · intro grammar built collection member production among
    obtain ⟨expansion, expanded, -, has⟩ := mem_productions_iff built
    exact filled_of_expanded expanded _ _ ((has collection member production).mp among)

-- The alternative always has a comma, but what is repeated behind it may be nothing.
example : ofAlternatives?
    [⟨"Item", [.token .comma, .repeated [.optional [.token .semicolon]]]⟩] =
      .error (.emptyProduction "ZOM_1") := rfl

end GrammarDraft

end JavaFrontend
