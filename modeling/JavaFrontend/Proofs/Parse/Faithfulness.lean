import JavaFrontend.Proofs.Parse.TokenLists
import JavaFrontend.Proofs.Reduction.GenericTree

/-!
What a parse with generic nodes comes to. It never blames the grammar and the builder, and what it
makes of its input is the image of a derivation of the start over exactly the tokens that its last
pass has scanned.
-/

namespace JavaFrontend.Parser

variable {grammar : Grammar}

/-- Generic nodes are faithful to derivations. The parse never blames the grammar and the builder.
If it makes something of its input, the last pass has, and it is the image of a derivation of the
start over the tokens which that pass has scanned; its leaves are those tokens, in order. -/
theorem generic_faithful {draft : GrammarDraft} (built : draft.build = .ok grammar)
    (typeContext : Bool) (source : TokenSource)
    (fit : ∀ token, source.Delivers token → token.ValueFits) :
    (∀ reason, (genericFor grammar typeContext).parse source ≠ .error (.internal reason)) ∧
    ∀ root, (genericFor grammar typeContext).parse source = .ok root →
      ∃ earlier pass, (genericFor grammar typeContext).passes source = earlier ++ [pass] ∧
        pass.outcome = .ok root ∧
        (∃ tree : DerivationTree, tree.Valid grammar ∧ tree.root = .rule grammar.start ∧
          tree.tokens = pass.scanned (splitsAfter earlier) ∧ tree.image = root) ∧
        root.leaves = (pass.scanned (splitsAfter earlier)).map .ofToken ∧
        root.leafKinds = (pass.scanned (splitsAfter earlier)).map (·.kind) := by
  have ready := ready_genericFor built typeContext
  have total := total_genericFor grammar typeContext
  refine ⟨fun reason parsed => ?_, fun root parsed => ?_⟩
  · obtain ⟨earlier, pass, passes, outcome⟩ := outcome_of_parse parsed (by simp)
    obtain ⟨tape, -, unread, rfl⟩ := pass_of_passes passes
    exact (outcome_of_pass ready total unread fun _ _ => trivial).1 reason outcome
  · obtain ⟨earlier, pass, passes, outcome⟩ := outcome_of_parse parsed (by simp)
    obtain ⟨tape, drawn, unread, rfl⟩ := pass_of_passes passes
    have made := (outcome_of_pass ready total unread fun _ _ => trivial).2 root outcome
    obtain ⟨trees, roots, valid, tokens, images⟩ := DerivationTree.trees_of_builds made
    obtain ⟨tree, rfl, rooted⟩ := List.map_eq_singleton_iff.mp roots
    have tokens : tree.tokens = _ := (List.flatMap_singleton _ tree).symm.trans tokens
    have image : tree.image = root := List.singleton_inj.mp images
    have valid := valid tree (List.mem_singleton_self tree)
    refine ⟨earlier, _, passes, outcome, ⟨tree, valid, rooted, tokens, image⟩, ?_, ?_⟩
    · rw [← image, ← tokens]
      exact DerivationTree.leaves_image valid
    · rw [← image, ← tokens]
      refine DerivationTree.leafKinds_image valid fun token member => ?_
      rw [tokens] at member
      rcases mem_scanned drawn member with delivered | ⟨-, none⟩
      · exact fit token delivered
      · intro kind some
        rw [none] at some
        cases some

/-- A line of one identifier is parsed, and the leaves of its tree are what was scanned. -/
theorem leaves_of_line : GrammarDraft.lines.build = .ok GrammarDraft.lineGrammar ∧
    ∃ root earlier pass,
    (genericFor GrammarDraft.lineGrammar true).parse (.list (.ofKinds [.identifier])) = .ok root ∧
    (genericFor GrammarDraft.lineGrammar true).passes (.list (.ofKinds [.identifier])) =
        earlier ++ [pass] ∧
    root.leaves = (pass.scanned (splitsAfter earlier)).map .ofToken := by
  have derived := GrammarDraft.generates_line.1
  have plain : (TokenList.ofKinds [.identifier]).Plain := by
    unfold TokenList.Plain
    decide
  have clean : ∀ token ∈ (TokenList.ofKinds [.identifier]).significant, token.error? = none := by
    decide
  have accepted := exists_parse_list_iff (ready_genericFor GrammarDraft.build_lines true)
    (total_genericFor GrammarDraft.lineGrammar true) plain clean
  obtain ⟨root, parsed⟩ := accepted.mpr (.inl ⟨.of_generates derived, derived⟩)
  have fit (token : Token)
      (delivered : (TokenSource.list (.ofKinds [.identifier])).Delivers token) :
      token.ValueFits := by
    rcases TokenSource.mem_of_delivers_list delivered with listed | rfl
    · cases List.mem_singleton.mp listed
      rintro kind ⟨⟩
    · rintro kind ⟨⟩
  obtain ⟨earlier, pass, passes, -, -, leaves, -⟩ :=
    (generic_faithful GrammarDraft.build_lines true _ fit).2 root parsed
  exact ⟨GrammarDraft.build_lines, root, earlier, pass, parsed, passes, leaves⟩

end JavaFrontend.Parser
