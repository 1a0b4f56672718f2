import JavaFrontend.Proofs.Java.Making

/-!
Parts of the Java grammar for tokens of few kinds. Most alternatives need a token of another kind,
or a name that does, so little is left of the grammar; and what the alternatives that are left hand
on holds of all that is built of such tokens (`Parses.holds_of_sieve`).
-/

namespace JavaFrontend.Java

open Element

/-- Whether something is never left out of the row that is not made of tokens of the kinds: a token
of another kind, or one of the names. -/
def starved (kinds : List Kind) (barren : List String) (elements : List Element) : Bool :=
  elements.any fun
    | .token kind => !kinds.contains kind
    | .rule name => (barren.map code).contains (code name)
    | .optional _ | .repeated _ => false

/-- The row without the groups that tokens of the kinds leave out. -/
def thinned (kinds : List Kind) (barren : List String) (elements : List Element) : List Element :=
  elements.filter fun
    | .token _ | .rule _ => true
    | .optional body | .repeated body => !starved kinds barren body

/-- The names in `barren` stand for nothing of the kinds alone, and of the names of the alternatives
in `live`, these are all that is left. -/
structure Sieve (kinds : List Kind) (barren : List String) (live : List Alternative) : Prop where
  starves : ∀ alternative ∈ Grammar.rules, code alternative.name ∈ barren.map code →
    starved kinds barren alternative.elements
  keeps : ∀ alternative ∈ Grammar.rules, code alternative.name ∈ live.map (code ·.name) →
    starved kinds barren alternative.elements ∨
      ⟨alternative.name, thinned kinds barren alternative.elements⟩ ∈ live
  closed : ∀ alternative ∈ live, ∀ name ∈ bodyNames alternative.elements,
    code name ∈ live.map (code ·.name)

variable {Holds : String → List Token → Node → Prop} {kinds : List Kind} {barren : List String}
  {live : List Alternative} {elements : List Element} {tokens : List Token} {parts : Production}
  {nodes : List Node} {node : Node} {name : String}

theorem mem_live_iff : code name ∈ live.map (code ·.name) ↔ name ∈ live.map (·.name) := by
  rw [List.mem_map, List.mem_map]
  constructor
  · rintro ⟨alternative, member, same⟩
    exact ⟨alternative, member, code_inj same⟩
  · rintro ⟨alternative, member, rfl⟩
    exact ⟨alternative, member, rfl⟩

/-- What is said of a name for any tokens: if they are of the kinds, then it is not barren, and what
holds of the names that are left holds of it. -/
private def Left (kinds : List Kind) (barren : List String) (live : List Alternative)
    (Holds : String → List Token → Node → Prop) (name : String) (tokens : List Token)
    (node : Node) : Prop :=
  (∀ token ∈ tokens, token.kind ∈ kinds ∧ Fitting token) →
    name ∉ barren ∧ (name ∈ live.map (·.name) → Holds name tokens node)

private theorem not_starved (made : Made (Left kinds barren live Holds) elements tokens parts nodes)
    (few : ∀ token ∈ tokens, token.kind ∈ kinds ∧ Fitting token) : ¬ starved kinds barren elements := by
  induction made with
  | nil => simp [starved]
  | token token same _ ih =>
    obtain ⟨here, later⟩ := List.forall_mem_cons.mp few
    simpa [starved, ← same, here.1] using ih later
  | rule holds _ ih =>
    obtain ⟨here, later⟩ := List.forall_mem_append.mp few
    have fruitful := (holds here).1
    simpa [starved, mem_map_code_iff, fruitful] using ih later
  | absent _ _ ih | never _ _ ih => simpa [starved] using ih few
  | present _ _ _ ih | times _ _ _ _ _ _ _ ih =>
    simpa [starved] using ih (List.forall_mem_append.mp few).2

private theorem made_thinned
    (made : Made (Left kinds barren live Holds) elements tokens parts nodes)
    (few : ∀ token ∈ tokens, token.kind ∈ kinds ∧ Fitting token) :
    Made (Left kinds barren live Holds) (thinned kinds barren elements) tokens parts nodes := by
  induction made with
  | nil => exact .nil
  | token token same _ ih => exact .token token same (ih (List.forall_mem_cons.mp few).2)
  | rule holds _ ih => exact .rule holds (ih (List.forall_mem_append.mp few).2)
  | absent body _ ih =>
    have rest := ih few
    unfold thinned at rest ⊢
    by_cases fed : starved kinds barren body
    · rwa [List.filter_cons_of_neg (by simpa using fed)]
    · rw [List.filter_cons_of_pos (by simpa using fed)]
      exact .absent body rest
  | never body _ ih =>
    have rest := ih few
    unfold thinned at rest ⊢
    by_cases fed : starved kinds barren body
    · rwa [List.filter_cons_of_neg (by simpa using fed)]
    · rw [List.filter_cons_of_pos (by simpa using fed)]
      exact .never body rest
  | @present body _ _ _ _ _ _ _ inside _ _ ih =>
    obtain ⟨here, later⟩ := List.forall_mem_append.mp few
    have fed := not_starved inside here
    have rest := ih later
    unfold thinned at rest ⊢
    rw [List.filter_cons_of_pos (by simpa using fed)]
    exact .present inside rest
  | @times body _ _ _ _ name element occurrences some each _ _ ih =>
    obtain ⟨here, later⟩ := List.forall_mem_append.mp few
    obtain ⟨occurrence, member⟩ := List.exists_mem_of_ne_nil _ some
    have fed := not_starved (each occurrence member) fun token inside =>
      here token (List.mem_flatMap.mpr ⟨occurrence, member, inside⟩)
    have rest := ih later
    unfold thinned at rest ⊢
    rw [List.filter_cons_of_pos (by simpa using fed)]
    exact .times name element occurrences some each rest

private theorem made_of_left
    (made : Made (Left kinds barren live Holds) elements tokens parts nodes)
    (few : ∀ token ∈ tokens, token.kind ∈ kinds ∧ Fitting token)
    (known : ∀ name ∈ bodyNames elements, code name ∈ live.map (code ·.name)) :
    Made Holds elements tokens parts nodes := by
  induction made with
  | nil => exact .nil
  | token token same _ ih =>
    exact .token token same (ih (List.forall_mem_cons.mp few).2
      (by simpa [bodyNames, names] using known))
  | rule holds _ ih =>
    obtain ⟨here, later⟩ := List.forall_mem_append.mp few
    simp only [bodyNames, names, List.singleton_append, List.forall_mem_cons] at known
    exact .rule ((holds here).2 (mem_live_iff.mp known.1)) (ih later known.2)
  | absent body _ ih => exact .absent body (ih few (List.forall_mem_append.mp known).2)
  | never body _ ih => exact .never body (ih few (List.forall_mem_append.mp known).2)
  | present _ _ insideIh restIh =>
    obtain ⟨here, later⟩ := List.forall_mem_append.mp few
    obtain ⟨inner, outer⟩ := List.forall_mem_append.mp known
    exact .present (insideIh here inner) (restIh later outer)
  | times name element occurrences some _ _ eachIh restIh =>
    obtain ⟨here, later⟩ := List.forall_mem_append.mp few
    obtain ⟨inner, outer⟩ := List.forall_mem_append.mp known
    refine .times name element occurrences some (fun occurrence member => ?_) (restIh later outer)
    exact eachIh occurrence member (fun token inside =>
      here token (List.mem_flatMap.mpr ⟨occurrence, member, inside⟩)) inner

variable {goal : Element} {expansion : Expansion} {grammar : JavaFrontend.Grammar}
  {parser : Parser Node}

/-- What the alternatives that are left hand on holds of what is built of tokens of the kinds for
one of their names. -/
theorem Parses.holds_of_sieve (parses : Parses goal expansion grammar parser)
    (sieve : Sieve kinds barren live)
    (step : ∀ alternative ∈ live, ∀ (tokens : List Token) (parts : Production)
      (nodes : List Node) (node : Node), (∀ token ∈ tokens, Fitting token) →
        Made Holds alternative.elements tokens parts nodes →
          Reduces alternative.name parts nodes node → Holds alternative.name tokens node)
    (known : name ∈ live.map (·.name)) (listed : name ∈ Grammar.rules.map (·.name))
    (few : ∀ token ∈ tokens, token.kind ∈ kinds ∧ Fitting token)
    (built : parser.Builds [.rule name] tokens [node]) : Holds name tokens node := by
  suffices left : Left kinds barren live Holds name tokens node from (left few).2 known
  refine parses.holds_of_builds ?_ listed built
  intro alternative member tokens parts nodes node made reduces few
  have fed := not_starved made few
  refine ⟨fun barren => fed (sieve.starves alternative member (mem_map_code_iff.mpr barren)),
    fun known => ?_⟩
  have left := (sieve.keeps alternative member (mem_live_iff.mpr known)).resolve_left fed
  exact step _ left tokens parts nodes node (fun token member => (few token member).2)
    (made_of_left (made_thinned made few) few (sieve.closed _ left)) reduces

end JavaFrontend.Java
