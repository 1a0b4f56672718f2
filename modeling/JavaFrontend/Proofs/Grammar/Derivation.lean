import JavaFrontend.Grammar.Basic
import Mathlib.Logic.Relation

/-!
What a grammar derives. A step of a derivation replaces one name in a row of parts by the right
side of one of its rules; a leftmost step replaces the first name. Two relations say the same by
structure: `Matches` follows a derivation of tokens alone, and `Exposes` follows one up to the part
that stands first behind given tokens. `matches_iff_derives` and `exposes_iff_derives` tie them to
derivations, and `exposes_iff_derives_leftmost` to leftmost ones.
-/

namespace JavaFrontend.Grammar

/-- One name is replaced by the right side of one of its rules. -/
inductive Rewrites (grammar : Grammar) : List Part → List Part → Prop where
  | replace (before after : List Part) {rule : Rule} (known : rule ∈ grammar.rules) :
    Rewrites grammar (before ++ .rule rule.name :: after) (before ++ rule.parts ++ after)

/-- The first name is replaced by the right side of one of its rules. -/
inductive RewritesLeftmost (grammar : Grammar) : List Part → List Part → Prop where
  | replace (before : List Kind) (after : List Part) {rule : Rule} (known : rule ∈ grammar.rules) :
    RewritesLeftmost grammar (before.map .token ++ .rule rule.name :: after)
      (before.map .token ++ rule.parts ++ after)

/-- Any number of names are replaced, one after the other. -/
abbrev Derives (grammar : Grammar) : List Part → List Part → Prop :=
  Relation.ReflTransGen grammar.Rewrites

/-- Any number of names are replaced, each time the first that is left. -/
abbrev DerivesLeftmost (grammar : Grammar) : List Part → List Part → Prop :=
  Relation.ReflTransGen grammar.RewritesLeftmost

/-- The parts derive the tokens of the kinds. -/
abbrev Generates (grammar : Grammar) (parts : List Part) (kinds : List Kind) : Prop :=
  grammar.Derives parts (kinds.map .token)

/-- Some row of parts that the start derives begins with the kinds. -/
def Viable (grammar : Grammar) (kinds : List Kind) : Prop :=
  ∃ rest, grammar.Derives [.rule grammar.start] (kinds.map .token ++ rest)

/-- The parts stand for the kinds: each token for itself, each name for what the right side of one
of its rules stands for. -/
inductive Matches (grammar : Grammar) : List Part → List Kind → Prop where
  | nil : Matches grammar [] []
  | token (kind : Kind) {parts : List Part} {kinds : List Kind}
      (rest : Matches grammar parts kinds) :
    Matches grammar (.token kind :: parts) (kind :: kinds)
  | rule {rule : Rule} {parts : List Part} {inner kinds : List Kind} (known : rule ∈ grammar.rules)
      (body : Matches grammar rule.parts inner) (rest : Matches grammar parts kinds) :
    Matches grammar (.rule rule.name :: parts) (inner ++ kinds)

/-- Within what the root stands for, the part may stand right behind the kinds. -/
inductive Exposes (grammar : Grammar) (root : Part) : List Kind → Part → Prop where
  | here : Exposes grammar root [] root
  | inside {read passed : List Kind} {rule : Rule} {before after : List Part} {part : Part}
      (outer : Exposes grammar root read (.rule rule.name)) (known : rule ∈ grammar.rules)
      (split : rule.parts = before ++ part :: after) (matched : Matches grammar before passed) :
    Exposes grammar root (read ++ passed) part

variable {grammar : Grammar} {parts first second : List Part} {kinds read : List Kind}

/-! ### Rows that match -/

theorem Matches.append {left right : List Kind} (head : Matches grammar first left)
    (tail : Matches grammar second right) : Matches grammar (first ++ second) (left ++ right) := by
  induction head with
  | nil => exact tail
  | token kind _ ih => exact .token kind ih
  | rule known body _ _ ih =>
    rw [List.append_assoc]
    exact .rule known body ih

theorem Matches.split (whole : Matches grammar (first ++ second) kinds) :
    ∃ left right, kinds = left ++ right ∧ Matches grammar first left ∧
      Matches grammar second right := by
  induction first generalizing kinds with
  | nil => exact ⟨[], kinds, rfl, .nil, whole⟩
  | cons part first ih =>
    cases whole with
    | token kind rest =>
      obtain ⟨left, right, rfl, head, tail⟩ := ih rest
      exact ⟨kind :: left, right, rfl, .token kind head, tail⟩
    | @rule _ _ inner _ known body rest =>
      obtain ⟨left, right, rfl, head, tail⟩ := ih rest
      exact ⟨inner ++ left, right, by rw [List.append_assoc], .rule known body head, tail⟩

theorem Matches.tokens (kinds : List Kind) : Matches grammar (kinds.map .token) kinds := by
  induction kinds with
  | nil => exact .nil
  | cons kind _ ih => exact .token kind ih

theorem matches_nil : Matches grammar [] kinds ↔ kinds = [] := by
  constructor
  · rintro ⟨⟩
    rfl
  · rintro rfl
    exact .nil

theorem matches_single_rule {name : String} :
    Matches grammar [.rule name] kinds ↔
      ∃ rule ∈ grammar.rules, rule.name = name ∧ Matches grammar rule.parts kinds := by
  constructor
  · rintro ⟨⟩
    rename_i known body rest
    obtain rfl := matches_nil.mp rest
    exact ⟨_, known, rfl, by simpa using body⟩
  · rintro ⟨rule, known, rfl, body⟩
    simpa using Matches.rule known body .nil

/-- What stands for kinds after one step stood for them before it. -/
theorem Matches.of_rewrites (step : grammar.Rewrites first second)
    (after : Matches grammar second kinds) : Matches grammar first kinds := by
  obtain ⟨before, after', known⟩ := step
  obtain ⟨passed, last, rfl, middle, tail⟩ := after.split
  obtain ⟨left, inner, rfl, head, body⟩ := middle.split
  rw [List.append_assoc]
  exact head.append (.rule known body tail)

theorem Derives.of_leftmost (derived : grammar.DerivesLeftmost first second) :
    grammar.Derives first second := by
  induction derived with
  | refl => exact .refl
  | tail _ step ih =>
    obtain ⟨before, after, known⟩ := step
    exact ih.tail (.replace _ after known)

/-- A row that stands for kinds is rewritten to them from the left, whatever tokens stand before
it and whatever stands behind it. -/
theorem Matches.derives_leftmost (matched : Matches grammar parts kinds) (before : List Kind)
    (after : List Part) :
    grammar.DerivesLeftmost (before.map .token ++ parts ++ after)
      ((before ++ kinds).map .token ++ after) := by
  induction matched generalizing before after with
  | nil =>
    rw [List.append_nil, List.append_nil]
  | token kind _ ih => simpa using ih (before ++ [kind]) after
  | @rule rule parts inner kinds known _ _ bodyIh restIh =>
    have opened : grammar.RewritesLeftmost
        (before.map .token ++ .rule rule.name :: (parts ++ after))
        (before.map .token ++ rule.parts ++ (parts ++ after)) := .replace before _ known
    have closed := bodyIh before (parts ++ after)
    have behind := restIh (before ++ inner) after
    rw [List.append_assoc _ parts after] at behind
    simpa using (closed.trans behind).head opened

/-- Standing for kinds is deriving them. -/
theorem matches_iff_derives : Matches grammar parts kinds ↔ grammar.Generates parts kinds := by
  constructor
  · intro matched
    simpa using Derives.of_leftmost (matched.derives_leftmost [] [])
  · intro derived
    induction derived using Relation.ReflTransGen.head_induction_on with
    | refl => exact .tokens kinds
    | head step _ ih => exact ih.of_rewrites step

/-! ### Parts that come next -/

/-- A way into the right side of a rule goes on as it would from the part it leads to. -/
theorem Exposes.under {rule : Rule} {before after : List Part} {root part : Part}
    {passed : List Kind} (inner : Exposes grammar root read part) (known : rule ∈ grammar.rules)
    (split : rule.parts = before ++ root :: after) (matched : Matches grammar before passed) :
    Exposes grammar (.rule rule.name) (passed ++ read) part := by
  induction inner with
  | here => simpa using Exposes.inside .here known split matched
  | inside _ deeper deeperSplit deeperMatched ih =>
    rw [← List.append_assoc]
    exact .inside ih deeper deeperSplit deeperMatched

private theorem append_split {xs ys before after : List Part} {root : Part}
    (same : xs ++ ys = before ++ root :: after) :
    (∃ between, xs = before ++ root :: between ∧ after = between ++ ys) ∨
      ∃ between, before = xs ++ between ∧ ys = between ++ root :: after := by
  rcases List.append_eq_append_iff.mp same with ⟨between, left, right⟩ | ⟨between, left, right⟩
  · exact .inr ⟨between, left, right⟩
  · cases between with
    | nil => exact .inr ⟨[], by simpa using left.symm, by simpa using right.symm⟩
    | cons part between =>
      obtain ⟨rfl, rfl⟩ := List.cons.inj right
      exact .inl ⟨between, left, rfl⟩

/-- In a row of parts the part may stand right behind the kinds. -/
private def RowExposes (grammar : Grammar) (row : List Part) (read : List Kind) (part : Part) :
    Prop :=
  ∃ before root after passed inner, row = before ++ root :: after ∧
    Matches grammar before passed ∧ Exposes grammar root inner part ∧ read = passed ++ inner

private theorem row_exposes_of_rewrites {part : Part} (step : grammar.Rewrites first second)
    (exposed : RowExposes grammar second read part) : RowExposes grammar first read part := by
  obtain @⟨left, right, rule, known⟩ := step
  obtain ⟨before, root, after, passed, inner, same, matched, below, rfl⟩ := exposed
  rcases append_split same with ⟨between, same, -⟩ | ⟨behind, rfl, rfl⟩
  · rcases append_split same with ⟨between, rfl, -⟩ | ⟨between, rfl, split⟩
    · exact ⟨before, root, between ++ .rule rule.name :: right, passed, inner, by simp, matched,
        below, rfl⟩
    · obtain ⟨outside, passed, rfl, head, matched⟩ := matched.split
      exact ⟨left, _, right, outside, _, rfl, head, below.under known split matched,
        by rw [List.append_assoc]⟩
  · exact ⟨left ++ .rule rule.name :: behind, root, after, passed, inner, by simp,
      matched.of_rewrites (.replace left behind known), below, rfl⟩

private theorem row_exposes_of_derives {part : Part}
    (derived : grammar.Derives first (kinds.map .token ++ part :: second)) :
    RowExposes grammar first kinds part := by
  induction derived using Relation.ReflTransGen.head_induction_on with
  | refl => exact ⟨_, part, second, kinds, [], rfl, .tokens kinds, .here, by simp⟩
  | head step _ ih => exact row_exposes_of_rewrites step ih

private theorem exposes_of_derives {root part : Part}
    (derived : grammar.Derives [root] (kinds.map .token ++ part :: second)) :
    Exposes grammar root kinds part := by
  obtain ⟨before, top, after, passed, inner, same, matched, below, rfl⟩ :=
    row_exposes_of_derives derived
  rcases List.singleton_eq_append_iff.mp same with ⟨rfl, top⟩ | ⟨rfl, top⟩
  · obtain ⟨rfl, rfl⟩ := List.cons.inj top
    obtain rfl := matches_nil.mp matched
    exact below
  · cases top

private theorem derives_leftmost_of_exposes {root part : Part}
    (exposed : Exposes grammar root kinds part) :
    ∃ rest, grammar.DerivesLeftmost [root] (kinds.map .token ++ part :: rest) := by
  induction exposed with
  | here => exact ⟨[], .refl⟩
  | @inside read passed rule before after part _ known split matched ih =>
    obtain ⟨rest, derived⟩ := ih
    have opened := derived.tail (.replace read rest known)
    rw [split] at opened
    refine ⟨after ++ rest, opened.trans ?_⟩
    simpa using matched.derives_leftmost read (part :: after ++ rest)

/-- The part is exposed behind the kinds if some row that is derived from the root begins with the
kinds and the part. -/
theorem exposes_iff_derives {root part : Part} : Exposes grammar root kinds part ↔
    ∃ rest, grammar.Derives [root] (kinds.map .token ++ part :: rest) := by
  constructor
  · intro exposed
    obtain ⟨rest, derived⟩ := derives_leftmost_of_exposes exposed
    exact ⟨rest, .of_leftmost derived⟩
  · rintro ⟨rest, derived⟩
    exact exposes_of_derives derived

/-- Leftmost derivations expose the same parts as all derivations. -/
theorem exposes_iff_derives_leftmost {root part : Part} : Exposes grammar root kinds part ↔
    ∃ rest, grammar.DerivesLeftmost [root] (kinds.map .token ++ part :: rest) := by
  constructor
  · exact derives_leftmost_of_exposes
  · rintro ⟨rest, derived⟩
    exact exposes_of_derives (.of_leftmost derived)

/-! ### Viable kinds -/

theorem viable_nil : grammar.Viable [] := ⟨[.rule grammar.start], .refl⟩

/-- Kinds that go on with a further kind are viable if its token is exposed behind them. -/
theorem viable_append_singleton {kind : Kind} : grammar.Viable (kinds ++ [kind]) ↔
    Exposes grammar (.rule grammar.start) kinds (.token kind) := by
  rw [exposes_iff_derives]
  simp [Viable]

/-- A kind with which some kinds are viable is one that a rule mentions. -/
theorem Viable.exists_rule {kind : Kind} (viable : grammar.Viable (kinds ++ [kind])) :
    ∃ rule ∈ grammar.rules, .token kind ∈ rule.parts := by
  cases viable_append_singleton.mp viable with
  | @inside _ _ rule _ _ _ _ known split _ => exact ⟨rule, known, by simp [split]⟩

theorem Viable.of_append {more : List Kind} (viable : grammar.Viable (kinds ++ more)) :
    grammar.Viable kinds := by
  obtain ⟨rest, derived⟩ := viable
  exact ⟨more.map .token ++ rest, by simpa using derived⟩

/-- What the start derives is viable. -/
theorem Viable.of_generates (derived : grammar.Generates [.rule grammar.start] kinds) :
    grammar.Viable kinds :=
  ⟨[], by simpa using derived⟩

end JavaFrontend.Grammar
