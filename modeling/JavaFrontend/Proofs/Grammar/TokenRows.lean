import JavaFrontend.Proofs.Grammar.Derivation

/-!
Grammars whose rules are rows of tokens for the start. Such a grammar generates its rows and nothing
else, and what begins one of them is all that is viable.
-/

namespace JavaFrontend.Grammar

variable {grammar : Grammar} {rows : List (List Kind)} {kinds : List Kind}

/-- The rules of the grammar are those for the start with the rows as their right sides. -/
def HasRows (grammar : Grammar) (rows : List (List Kind)) : Prop :=
  grammar.rules.toList = rows.map fun row => ⟨grammar.start, row.map .token⟩

theorem HasRows.mem_rules_iff (only : grammar.HasRows rows) {rule : Rule} :
    rule ∈ grammar.rules ↔ ∃ row ∈ rows, ⟨grammar.start, row.map .token⟩ = rule := by
  rw [← Array.mem_toList_iff, only, List.mem_map]

/-- A row of tokens stands for its kinds alone. -/
theorem matches_tokens_iff {tokens : List Kind} :
    Matches grammar (tokens.map .token) kinds ↔ kinds = tokens := by
  constructor
  · intro matched
    induction tokens generalizing kinds with
    | nil => exact matches_nil.mp matched
    | cons kind tokens ih =>
      cases matched with
      | token _ rest => rw [ih rest]
  · rintro rfl
    exact .tokens kinds

/-- The grammar generates its rows. -/
theorem HasRows.generates_iff (only : grammar.HasRows rows) :
    grammar.Generates [.rule grammar.start] kinds ↔ kinds ∈ rows := by
  rw [← matches_iff_derives, matches_single_rule]
  constructor
  · rintro ⟨_, known, -, matched⟩
    obtain ⟨row, among, rfl⟩ := only.mem_rules_iff.mp known
    rwa [matches_tokens_iff.mp matched]
  · intro among
    exact ⟨_, only.mem_rules_iff.mpr ⟨kinds, among, rfl⟩, rfl, .tokens kinds⟩

/-- What a row begins with is viable, and nothing else is. -/
theorem HasRows.viable_iff (only : grammar.HasRows rows) :
    grammar.Viable kinds ↔ kinds = [] ∨ ∃ row ∈ rows, kinds <+: row := by
  constructor
  · intro viable
    rcases List.eq_nil_or_concat kinds with rfl | ⟨before, kind, rfl⟩
    · exact .inl rfl
    rw [List.concat_eq_append, viable_append_singleton] at viable
    have single {name : String} {read : List Kind}
        (exposed : Exposes grammar (.rule grammar.start) read (.rule name)) : read = [] := by
      generalize same : Part.rule name = part at exposed
      cases exposed with
      | here => rfl
      | inside _ known split _ =>
        obtain ⟨row, -, rfl⟩ := only.mem_rules_iff.mp known
        have listed : part ∈ row.map Part.token := by
          rw [show row.map Part.token = _ from split]
          simp
        subst same
        simp at listed
    cases viable with
    | @inside read passed _ front back _ outer known split matched =>
      obtain rfl := single outer
      obtain ⟨row, among, rfl⟩ := only.mem_rules_iff.mp known
      obtain ⟨first, rest, rfl, rfl, same⟩ := List.map_eq_append_iff.mp split
      obtain ⟨last, rest, rfl, ended, -⟩ := List.map_eq_cons_iff.mp same
      cases ended
      rw [matches_tokens_iff.mp matched]
      exact .inr ⟨_, among, rest, by simp⟩
  · rintro (rfl | ⟨row, among, rest, rfl⟩)
    · exact viable_nil
    · exact (Viable.of_generates (only.generates_iff.mpr among)).of_append

end JavaFrontend.Grammar
