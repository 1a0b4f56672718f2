import JavaFrontend.Proofs.Java.Parses
import JavaFrontend.Proofs.Parse.Layout
import JavaFrontend.Proofs.Place.Reductions

/-!
Texts with layout put into them, for the parsers that there are: those for grammars that were built,
and those for Java. What is made of such a text is what is made of the text itself but for the places
of things. There are two ways to put layout behind a token that do make a difference: two points
behind an integer, taken apart, are taken for the point of a number and another point; and behind a
comment without an end, what is put there is part of the comment.
-/

namespace JavaFrontend

theorem ofToken_unplaced (token : Token) :
    Node.ofToken (unplaced token) = unplaced (Node.ofToken token) := by
  have value : Java.LiteralValue.ofToken? (unplaced token) = Java.LiteralValue.ofToken? token := by
    obtain ⟨kind, text, position, value⟩ := token
    cases kind <;> rfl
  unfold Node.ofToken
  rw [value, show (unplaced token).kind = token.kind from rfl]
  split
  · rfl
  · split <;> rfl

namespace Parser

theorem blind_ofBuilder {builder : TreeBuilder} (blind : builder.Blind) (grammar : Grammar)
    (typeContext : Bool) :
    ({ ofBuilder grammar builder with typeContext } : Parser Node).interpretation.Blind where
  leaf := ofToken_unplaced
  reduce := TreeBuilder.reduce_unplaced blind

/-- The parsers that there are. -/
inductive Offered : Parser Node → Prop where
  | generic {draft : GrammarDraft} {grammar : Grammar} (built : draft.build = .ok grammar)
    (typeContext : Bool) : Offered (genericFor grammar typeContext)
  | java {parser : Parser Node} (isParser : Java.IsParser parser) (typeContext : Bool) :
    Offered { parser with typeContext }

theorem Offered.blind {parser : Parser Node} (offered : parser.Offered) :
    parser.interpretation.Blind := by
  cases offered with
  | @generic draft grammar built typeContext =>
    exact blind_ofBuilder (TreeBuilder.blind_generic grammar) grammar typeContext
  | @java parser isParser typeContext =>
    obtain ⟨goal, expansion, grammar, parses⟩ := isParser.parses typeContext
    obtain ⟨told, made⟩ := parses.made
    rw [made]
    exact blind_ofBuilder (Java.Reduction.blind_builder grammar) grammar told

end Parser

/-! ### What is taken from a text -/

/-- Without being told anything, a tape hands out the next of the tokens. -/
theorem Tape.Lags.next_untold {tape : Tape} {before known fresh more : List Token} {token : Token}
    (lags : tape.Lags false [] before known fresh) (first : known ++ fresh = token :: more) :
    (∃ reason, tape.next none = .error reason) ∨ ∃ rest known fresh,
      tape.next none = .ok (token, rest) ∧ rest.Lags false [] (before ++ [token]) known fresh ∧
        known ++ fresh = more := by
  have whole : Parser.isSplit [] token = false := by simp [Parser.isSplit]
  cases known with
  | cons next known =>
    obtain ⟨rfl, rfl⟩ := List.cons.inj first
    obtain ⟨rest, ran, further⟩ := lags.next_known whole none
    exact .inr ⟨rest, known, fresh, ran, further, rfl⟩
  | nil =>
    obtain rfl : fresh = token :: more := first
    have single (told : (none : Option Bool) = some true) : token.isJoined = false := by cases told
    rcases lags.next_fresh whole rfl single with
      ⟨fault, -, failed⟩ | ⟨-, rest, ran, further⟩
    · exact .inl ⟨_, failed⟩
    · exact .inr ⟨rest, [], more, ran, further, rfl⟩

namespace Parser

variable {parser : Parser Node} {splits shifts : List Position} {chart : Chart Node} {tape : Tape}
  {before known fresh tokens : List Token} {place : Position} {text : String} {root : Node}

/-- A pass that is told nothing takes the tokens of the text one after the other, and if it makes
something of them, then it has taken all of them. -/
theorem lags_continuePass (untold : parser.typeContext = false)
    (lags : tape.Lags false [] before known fresh)
    (whole : known ++ fresh = tokens ++ [Token.endOfInput place])
    (inside : ∀ token ∈ tokens, token.kind ≠ .endOfInput) {pass : Pass Node}
    (came : parser.continuePass splits chart shifts tape = pass) :
    ∃ before' known' fresh', pass.tape.Lags false [] before' known' fresh' ∧
      before' ++ (known' ++ fresh') = before ++ (known ++ fresh) ∧
      ∀ root, pass.outcome = .ok root → known' ++ fresh' = [] := by
  have none : parser.telling chart = none := by simp [telling, untold]
  induction tokens generalizing before known fresh chart shifts tape with
  | nil =>
    rcases lags.next_untold whole with ⟨reason, failed⟩ | ⟨rest, later, left, ran, further, end_⟩
    · rw [continuePass_error (none ▸ failed)] at came
      subst came
      exact ⟨before, known, fresh, lags, rfl, fun _ made => by cases made⟩
    · rw [continuePass_end (none ▸ ran) rfl] at came
      subst came
      exact ⟨_, later, left, further, by simp [end_, whole], fun _ _ => end_⟩
  | cons token tokens ih =>
    obtain ⟨here, later⟩ := List.forall_mem_cons.mp inside
    rcases lags.next_untold whole with ⟨reason, failed⟩ | ⟨rest, known', fresh', ran, further, same⟩
    · rw [continuePass_error (none ▸ failed)] at came
      subst came
      exact ⟨before, known, fresh, lags, rfl, fun _ made => by cases made⟩
    · rw [continuePass_token (none ▸ ran) here] at came
      split at came
      · subst came
        exact ⟨_, known', fresh', further, by simp [same, whole], fun _ made => by cases made⟩
      · obtain ⟨before', known, fresh, lags, all, made⟩ :=
          ih further same later came (by simp [telling, untold])
        exact ⟨before', known, fresh, lags, by simp [all, same, whole], made⟩

/-- All tokens of a text that is parsed without being told anything are taken. -/
theorem pulls_of_untold (untold : parser.typeContext = false)
    (waiting : (Lexer.ofString text).pending = tokens ++ [Token.endOfInput place])
    (inside : ∀ token ∈ tokens, token.kind ≠ .endOfInput)
    (parsed : parser.parse (.ofString text) = .ok root) {token : Token}
    (member : token ∈ tokens ++ [Token.endOfInput place]) : parser.Pulls text token := by
  have goesOn (splits : List Position) (tape : Tape)
      (lags : ∃ known fresh, tape.Lags false [] [] known fresh ∧
        known ++ fresh = tokens ++ [Token.endOfInput place]) : ∃ before known fresh,
      (parser.pass splits tape).tape.Lags false [] before known fresh ∧
      before ++ (known ++ fresh) = tokens ++ [Token.endOfInput place] ∧
      ∀ root, (parser.pass splits tape).outcome = .ok root → known ++ fresh = [] := by
    obtain ⟨known, fresh, lags, whole⟩ := lags
    unfold pass
    split
    · exact ⟨[], known, fresh, lags, whole, fun _ made => by cases made⟩
    · obtain ⟨before, known, fresh, lags, same, made⟩ :=
        lags_continuePass untold lags whole inside rfl
      exact ⟨before, known, fresh, lags, same.trans whole, made⟩
  obtain ⟨earlier, pass, split, made⟩ := outcome_of_parse parsed (by simp)
  obtain ⟨tape, lags, -, rfl⟩ := splits_of_passes
    (fun _ tape => ∃ known fresh, tape.Lags false [] [] known fresh ∧
      known ++ fresh = tokens ++ [Token.endOfInput place])
    ⟨[], _, Tape.lags_start false text, (List.nil_append _).trans waiting⟩
    (fun splits tape _ lags _ =>
      have ⟨before, known, fresh, lags, whole, _⟩ := goesOn splits tape lags
      ⟨before ++ known, fresh, lags.rewind, by simpa using whole⟩) split
  obtain ⟨before, known, fresh, lags, whole, all⟩ := goesOn _ tape lags
  rw [all root made, List.append_nil] at whole
  refine ⟨_, split ▸ List.mem_append_right earlier (List.mem_singleton_self _),
    List.mem_append_left _ ?_⟩
  rw [lags.read, whole]
  exact List.mem_flatMap.mpr ⟨token, member, by simp [pieces, isSplit]⟩

end Parser

/-! ### Points behind an integer -/

namespace GrammarDraft

/-- An integer with two points behind it. -/
def dots : GrammarDraft where
  alternatives := [⟨"Goal", [.token .intLiteral, .token .dot, .token .dot]⟩]

def dotGrammar : Grammar where
  start := "Goal"
  collections :=
    number 0 [("Goal", [[.token .intLiteral, .token .dot, .token .dot]])]
  names := dots.mentioned
    { productions := [("Goal", [[.token .intLiteral, .token .dot, .token .dot]])] } "Goal"

theorem build_dots : dots.build = .ok dotGrammar :=
  build_single rfl rfl rfl rfl (by decide) (by decide)

theorem accepts_dots {kinds : List Kind} :
    dotGrammar.Accepts kinds ↔ kinds ∈ [[Kind.intLiteral, .dot, .dot]] :=
  Grammar.HasRows.accepts_iff (show dotGrammar.HasRows [[.intLiteral, .dot, .dot]] from rfl)
    (by decide)

end GrammarDraft

namespace Parser

open GrammarDraft (dots dotGrammar)

/-- The tokens of an integer with two points behind it. -/
private def dotTokens : List Token := [
  { kind := .intLiteral, text := "1", position := ⟨1, 1⟩, value := .int 1 },
  { kind := .dot, text := ".", position := ⟨1, 2⟩ },
  { kind := .dot, text := ".", position := ⟨1, 3⟩ }]

/-- The text is read as the tokens, with neither errors nor shifts among them. -/
private structure ReadsAs (text : String) (tokens : List Token) (place : Position) : Prop where
  waiting : (Lexer.ofString text).pending = tokens ++ [.endOfInput place]
  plain : ∀ token ∈ tokens, token.kind ≠ .endOfInput ∧ token.kind.isRightShift = false
  clean : ∀ token ∈ tokens, token.error? = none

private theorem readsAs_dots : ReadsAs "1.." dotTokens ⟨1, 4⟩ :=
  ⟨by decide +kernel, by decide, by decide⟩

variable {tokens others : List Token} {place finish : Position} {text other : String}

/-- A text is parsed if it is an integer with two points behind it. -/
private theorem ReadsAs.parses_iff (reads : ReadsAs text tokens place) :
    (∃ root, (genericFor dotGrammar false).parse (.ofString text) = .ok root) ↔
      tokens.map (·.kind) = [.intLiteral, .dot, .dot] := by
  rw [exists_parse_untold_iff (ready_genericFor GrammarDraft.build_dots false)
    (total_genericFor dotGrammar false) rfl reads.waiting reads.plain reads.clean
    (fun _ _ => trivial) trivial]
  exact GrammarDraft.accepts_dots.trans List.mem_singleton

private theorem ReadsAs.pulls (reads : ReadsAs text tokens place)
    (accepted : tokens.map (·.kind) = [.intLiteral, .dot, .dot]) {token : Token}
    (member : token ∈ tokens ++ [Token.endOfInput place]) :
    (genericFor dotGrammar false).Pulls text token := by
  obtain ⟨root, parsed⟩ := reads.parses_iff.mpr accepted
  exact pulls_of_untold rfl reads.waiting (fun token member => (reads.plain token member).1) parsed
    member

/-- A blank behind the integer, and a comment behind the first of the points. -/
def dotGaps : Nat → List Char
  | 1 => [' ']
  | 2 => [' ', '/', '*', '.', '*', '/']
  | _ => []

private theorem between_dotGaps :
    Between ((genericFor dotGrammar false).Pulls "1..") "1..".toList dotGaps := by
  have ends (i : Nat) (some : dotGaps i ≠ []) : ∃ token,
      (genericFor dotGrammar false).Pulls "1.." token ∧ token.kind ≠ .endOfInput ∧
        token.EndsAt "1..".toList i := by
    match i with
    | 0 => exact absurd rfl some
    | 1 => exact ⟨dotTokens[0], readsAs_dots.pulls rfl (by decide), by decide, 0, by decide, rfl⟩
    | 2 => exact ⟨dotTokens[1], readsAs_dots.pulls rfl (by decide), by decide, 1, by decide, rfl⟩
    | i + 3 => exact absurd rfl some
  refine { layout := fun i => ?_, behind := fun i some => ?_, ended := fun i some => .inr (ends i some),
           pointed := fun _ i _ _ _ _ point none => ?_ }
  · match i with
    | 0 => exact .inl rfl
    | 1 => exact .inr ⟨[], .nil, rfl⟩
    | 2 => exact .inr ⟨_, @Layout.blockComment ['.'] [] (by decide) .nil, rfl⟩
    | i + 3 => exact .inl rfl
  · obtain ⟨token, pulled, -, there⟩ := ends i some
    exact ⟨token, pulled, there⟩
  · match i with
    | 0 => cases point
    | 1 => cases none
    | i + 2 => rfl

/-- The layout behind the first `n` characters. -/
def gapBehind (n : Nat) (layout : List Char) (i : Nat) : List Char := if i = n then layout else []

private theorem ReadsAs.behind (reads : ReadsAs text tokens place)
    (accepted : tokens.map (·.kind) = [.intLiteral, .dot, .dot]) {layout : List Char}
    (isLayout : Layout layout) {token : Token} {n : Nat}
    (member : token ∈ tokens ++ [Token.endOfInput place]) (ends : token.EndsAt text.toList n) :
    Behind ((genericFor dotGrammar false).Pulls text) text.toList (gapBehind n (' ' :: layout)) := by
  refine ⟨fun i => ?_, fun i some => ?_⟩
  · unfold gapBehind
    split
    · exact .inr ⟨layout, isLayout, rfl⟩
    · exact .inl rfl
  · obtain rfl : i = n := by
      by_contra other
      exact some (if_neg other)
    exact ⟨token, reads.pulls accepted member, ends⟩

private theorem ReadsAs.differs (reads : ReadsAs text tokens place)
    (accepted : tokens.map (·.kind) = [.intLiteral, .dot, .dot])
    (further : ReadsAs other others finish)
    (refused : others.map (·.kind) ≠ [.intLiteral, .dot, .dot]) :
    unplaced ((genericFor dotGrammar false).parse (.ofString other)) ≠
      unplaced ((genericFor dotGrammar false).parse (.ofString text)) := by
  obtain ⟨root, parsed⟩ := reads.parses_iff.mpr accepted
  rw [parsed]
  intro same
  cases made : (genericFor dotGrammar false).parse (.ofString other) with
  | ok root => exact refused (further.parses_iff.mp ⟨root, made⟩)
  | error reason =>
    rw [made] at same
    cases same

private def pointTokens : List Token := [
  { kind := .doubleLiteral, text := "1.", position := ⟨1, 1⟩, value := .double 4607182418800017408 },
  { kind := .dot, text := ".", position := ⟨1, 4⟩ }]

private def remarkTokens : List Token := dotTokens ++ [
  { kind := .star, text := "*", position := ⟨2, 1⟩ },
  { kind := .slash, text := "/", position := ⟨2, 2⟩ }]

end Parser

end JavaFrontend
