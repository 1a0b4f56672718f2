import JavaFrontend.Proofs.Grammar.Meaning
import JavaFrontend.Proofs.Java.Parses
import JavaFrontend.Proofs.Parse.TypeContext

/-!
The words of texts and of the trees that they are parsed into. Being told where type arguments may
close, a lexer takes symbols apart but no words. So whatever its passes told it, a tape over a text
has the words of the text, and a tree that was built of all its tokens has them too.
-/

namespace JavaFrontend

open Java

/-- The words among the tokens, in order. -/
def wordsAmong (tokens : List Token) : List Word := tokens.flatMap (·.word?.toList)

@[simp] theorem wordsAmong_nil : wordsAmong [] = [] := rfl

@[simp] theorem wordsAmong_cons (token : Token) (tokens : List Token) :
    wordsAmong (token :: tokens) = token.word?.toList ++ wordsAmong tokens := rfl

@[simp] theorem wordsAmong_append (tokens others : List Token) :
    wordsAmong (tokens ++ others) = wordsAmong tokens ++ wordsAmong others :=
  List.flatMap_append

namespace Token

theorem word?_operator {kind : Kind} (operator : kind.isOperator) (text : String)
    (position : Position) : ({ kind, text, position } : Token).word? = none := by
  cases kind <;> first | rfl | cases operator

theorem word?_eq_none {token : Token} (sound : token.Sound) (other : token.kind ≠ .identifier)
    (literal : token.kind.isLiteral = false) : token.word? = none := by
  obtain ⟨kind, text, position, value⟩ := token
  rw [word?, if_neg other, Option.map_eq_none_iff]
  cases sound with
  | fault reason invalid same =>
    cases same
    cases invalid
    rfl
  | literal same => cases value <;> cases same <;> cases literal
  | plain _ same =>
    cases same
    cases kind <;> first | rfl | cases literal

end Token

namespace Lexer

/-- The words of the text that is left. -/
def words (lexer : Lexer) : List Word := wordsAmong (lexer.setInTypes false).tokens

@[simp] theorem words_end (position : Position) (inTypes : Bool) :
    words ⟨[], position, inTypes⟩ = [] := by
  rw [words, setInTypes, tokens, if_pos rfl]
  rfl

/-- There are no words in symbols that begin with `>` or with `=`. -/
theorem words_joint (passed left : List Char) (joint : passed.all Lexeme.isJoint)
    (position : Position) :
    words ⟨passed ++ left, position, false⟩ =
      words ⟨left, position.shift passed.length, false⟩ := by
  induction length : (passed ++ left).length using Nat.strongRecOn
    generalizing passed left position with
  | ind n ih =>
    cases passed with
    | nil => rfl
    | cons c passed =>
      rw [List.all_cons, Bool.and_eq_true] at joint
      obtain ⟨kind, more, behind, split, -, all, operator, found⟩ :=
        next_joint joint.1 (passed ++ left) position
      have less : (passed ++ left).length < n := by
        rw [← length, List.cons_append, List.length_cons]
        omega
      -- The rest of the symbol is made of the same characters, and so is the rest of the run.
      have symbol := ih _ (split ▸ less) more behind all (position.shift 1) rfl
      have run := ih _ less passed left joint.2 (position.shift 1) rfl
      have same : words ⟨c :: passed ++ left, position, false⟩ =
          words ⟨behind, position.shift (more.length + 1), false⟩ := by
        unfold words setInTypes
        rw [tokens_cons (List.cons_ne_nil _ _), List.cons_append, found, wordsAmong_cons,
          Token.word?_operator operator]
        rfl
      rw [← split, run] at symbol
      rw [same]
      simpa [Position.shift, Nat.add_assoc, Nat.add_comm 1] using symbol.symm

/-- Whatever a lexer is told, the words to come are those of its next token and of what is left
then. -/
theorem words_next (lexer : Lexer) :
    lexer.words = lexer.next.1.word?.toList ++ lexer.next.2.words := by
  obtain ⟨text, position, inTypes⟩ := lexer
  cases text with
  | nil => rfl
  | cons c text =>
    have untold : words ⟨c :: text, position, false⟩ =
        (next ⟨c :: text, position, false⟩).1.word?.toList ++
          (next ⟨c :: text, position, false⟩).2.words := by
      rw [words, setInTypes_of_eq rfl, tokens_cons (List.cons_ne_nil _ _), wordsAmong_cons, words,
        setInTypes_of_eq (inTypes_next _)]
    cases inTypes with
    | false => exact untold
    | true =>
      by_cases joint : c = '>'
      · subst joint
        rw [next_greater]
        exact words_joint ['>'] text rfl position
      · have still : inTypes ⟨c :: text, position, false⟩ = false := rfl
        have same : next ⟨c :: text, position, true⟩ = _ :=
          next_setInTypes_of_ne still (by simpa using joint) true
        rw [same]
        exact untold

theorem words_nextSignificant {source : TokenSource} {lexer : Lexer} (same : source = .text lexer) :
    ∃ rest, source.nextSignificant.2 = .text rest ∧
      lexer.words = source.nextSignificant.1.word?.toList ++ rest.words ∧
      (source.nextSignificant.1.kind = .endOfInput → rest.words = []) := by
  fun_induction TokenSource.nextSignificant source generalizing lexer with
  | case1 source more ih =>
    cases same
    obtain ⟨rest, left, words, ended⟩ := ih rfl
    refine ⟨rest, left, ?_, ended⟩
    have trivia : lexer.next.1.kind.isTrivia := (Bool.and_eq_true_iff.mp more).1
    have wordless : lexer.next.1.word? = none := by
      refine Token.word?_eq_none lexer.sound_next.1 ?_ ?_ <;> revert trivia <;>
        cases lexer.next.1.kind <;> decide
    rw [words_next, wordless]
    exact words
  | case2 source stop =>
    cases same
    refine ⟨lexer.next.2, rfl, words_next lexer, fun ended => ?_⟩
    obtain ⟨text, position, inTypes⟩ := lexer
    cases (sound_next _).2.mp ended
    exact words_end position inTypes

end Lexer

/-! ### Tapes over texts -/

namespace Tape

/-- The tape has, and has to come, the words in turn; and none behind an end mark. -/
structure Tells (all : List Word) (tape : Tape) (lexer : Lexer) : Prop where
  source : tape.source = .text lexer
  words : wordsAmong (tape.read.reverse ++ tape.ahead) ++ lexer.words = all
  last : ∀ before token after, tape.read.reverse ++ tape.ahead = before ++ token :: after →
    token.kind = .endOfInput → wordsAmong after = [] ∧ lexer.words = []

variable {all : List Word} {tape rest : Tape} {lexer : Lexer} {inTypes : Option Bool}
  {token : Token}

theorem tells_start (source : String) :
    Tells (wordsAmong (Lexer.ofString source).tokens) { source := .ofString source }
      (.ofString source) :=
  ⟨rfl, rfl, fun before token after none => by simp at none⟩

theorem Tells.rewind (tells : Tells all tape lexer) : Tells all tape.rewind lexer := by
  obtain ⟨source, words, last⟩ := tells
  exact ⟨source, by simpa [Tape.rewind] using words, fun before token after split =>
    last before token after (by simpa [Tape.rewind] using split)⟩

theorem Tells.next (tells : Tells all tape lexer) (ran : tape.next inTypes = .ok (token, rest)) :
    ∃ lexer, Tells all rest lexer := by
  obtain ⟨read, ahead, source⟩ := tape
  obtain ⟨same, words, last⟩ := tells
  cases same
  unfold Tape.next at ran
  split at ran
  · rename_i first others same
    cases same
    cases ran
    exact ⟨lexer, rfl, by simpa using words, fun before token after split =>
      last before token after (by simpa using split)⟩
  · rename_i none
    dsimp only at ran none
    subst none
    have told : ∃ told, inTypes.elim (.text lexer) (TokenSource.text lexer).setInTypes =
        .text told ∧ told.words = lexer.words := by
      cases inTypes with
      | none => exact ⟨lexer, rfl, rfl⟩
      | some inTypes => exact ⟨lexer.setInTypes inTypes, rfl, rfl⟩
    obtain ⟨told, same, kept⟩ := told
    obtain ⟨left, further, grown, ended⟩ := Lexer.words_nextSignificant same
    split at ran
    · cases ran
    · cases ran
      rw [← kept, grown] at words last
      refine ⟨left, further, by simpa using words, fun before other after split mark => ?_⟩
      rw [List.append_nil, List.reverse_cons] at split
      rcases List.eq_nil_or_concat after with rfl | ⟨between, final, rfl⟩
      · obtain ⟨-, same⟩ := List.append_inj' split rfl
        obtain ⟨rfl, -⟩ := List.cons.inj same
        exact ⟨rfl, ended mark⟩
      · rw [List.concat_eq_append, ← List.cons_append, ← List.append_assoc] at split
        obtain ⟨front, same⟩ := List.append_inj' split rfl
        obtain ⟨rfl, -⟩ := List.cons.inj same
        obtain ⟨none, rest⟩ := last before other between (by simpa using front) mark
        obtain ⟨wordless, nothing⟩ := List.append_eq_nil_iff.mp rest
        exact ⟨by simp [none, wordless], nothing⟩

end Tape

namespace Parser

variable {source : String} {splits : List Position}

/-- Splitting a shift makes no words. -/
theorem wordsAmong_pieces {token : Token} (sound : token.Sound) :
    wordsAmong (pieces splits token) = token.word?.toList := by
  unfold pieces
  split
  · rename_i split
    have shift : token.kind.isRightShift := (Bool.and_eq_true_iff.mp split).1
    have wordless : token.word? = none := by
      refine Token.word?_eq_none sound ?_ ?_ <;> revert shift <;> cases token.kind <;> decide
    rw [wordless, wordsAmong, Option.toList_none, List.flatMap_eq_nil_iff]
    intro single member
    obtain ⟨i, -, rfl⟩ := List.mem_map.mp member
    rfl
  · exact List.append_nil _

theorem wordsAmong_taken {tape : Tape} (sound : ∀ token ∈ tape.read, token.Sound) :
    wordsAmong (taken splits tape) = wordsAmong tape.read.reverse := by
  rw [taken, wordsAmong, List.flatMap_assoc]
  exact List.flatMap_congr fun token member =>
    wordsAmong_pieces (sound token (List.mem_reverse.mp member))

/-- An end mark among the tokens that were taken was read as such. -/
theorem mem_read_of_taken (splits : List Position) {tape : Tape} {finish : Token}
    (ended : finish.kind = .endOfInput) (member : finish ∈ taken splits tape) : finish ∈ tape.read := by
  obtain ⟨token, among, piece⟩ := List.mem_flatMap.mp member
  unfold pieces at piece
  split at piece
  · obtain ⟨i, -, rfl⟩ := List.mem_map.mp piece
    cases ended
  · rw [List.mem_singleton.mp piece]
    exact List.mem_reverse.mp among

/-- A pass that makes something of its input has scanned all words. -/
theorem words_of_pass {parser : Parser Node} (ready : parser.Ready) {tape : Tape} {lexer : Lexer}
    {all : List Word} {root : Node} (unread : tape.read = [])
    (sound : ∀ token ∈ (parser.pass splits tape).tape.read, token.Sound)
    (tells : (parser.pass splits tape).tape.Tells all lexer)
    (made : (parser.pass splits tape).outcome = .ok root) :
    wordsAmong ((parser.pass splits tape).scanned splits) = all := by
  obtain ⟨reason, -, failed⟩ | ⟨tokens, chart, came⟩ := parser.pass_cases splits tape unread
  · rw [failed] at made
    cases made
  obtain ⟨before, finish, ended, whole, either⟩ := came.whole root made
  have read : finish ∈ (parser.pass splits tape).tape.read :=
    mem_read_of_taken splits ended (by simp [whole])
  obtain ⟨front, back, split⟩ := List.append_of_mem (List.mem_reverse.mpr read)
  obtain ⟨none, nothing⟩ := tells.last front finish
    (back ++ (parser.pass splits tape).tape.ahead) (by rw [split, List.append_assoc]; rfl) ended
  have mark : finish.word? = .none :=
    Token.word?_eq_none (sound finish read) (by simp [ended]) (by rw [ended]; rfl)
  have same : wordsAmong tokens = wordsAmong (taken splits (parser.pass splits tape).tape) := by
    rw [whole]
    rcases either with rfl | rfl <;> simp [mark]
  rw [wordsAmong_append] at none
  rw [came.scanned_eq ready, same, wordsAmong_taken sound, ← tells.words, nothing,
    wordsAmong_append, (List.append_eq_nil_iff.mp none).2, List.append_nil, List.append_nil]

end Parser

namespace Java

/-- What a parser makes of a text has the words of that text. -/
theorem Parses.words_eq {goal : Element} {expansion : Expansion} {grammar : JavaFrontend.Grammar}
    {parser : Parser Node} (parses : Parses goal expansion grammar parser) (source : String)
    {root : Node} (parsed : parser.parse (.ofString source) = .ok root) :
    root.words = (Lexer.ofString source).tokens.flatMap (·.word?.toList) := by
  obtain ⟨earlier, pass, passes, outcome⟩ := Parser.outcome_of_parse parsed (by simp)
  let all := wordsAmong (Lexer.ofString source).tokens
  let Holds (tape : Tape) := tape.Drawn (.ofString source) ∧ ∃ lexer, tape.Tells all lexer
  have kept (splits : List Position) (tape : Tape) (holds : Holds tape) :
      Holds (parser.pass splits tape).tape :=
    Parser.kept_pass _ (fun _ _ _ _ holds ran => by
      obtain ⟨drawn, _, tells⟩ := holds
      exact ⟨drawn.next ran, tells.next ran⟩) holds
  obtain ⟨tape, holds, unread, rfl⟩ := Parser.begin_of_passes Holds
    ⟨⟨.here, by simp, by simp⟩, _, Tape.tells_start source⟩
    (fun splits tape holds => by
      obtain ⟨drawn, lexer, tells⟩ := kept splits tape holds
      exact ⟨drawn.rewind, lexer, tells.rewind⟩) passes
  obtain ⟨drawn, lexer, tells⟩ := kept (Parser.splitsAfter earlier) tape holds
  have fit : ∀ token ∈ Parser.taken (Parser.splitsAfter earlier) _, Fitting token :=
    fitting_of_taken drawn
  have built := (Parser.outcome_of_pass parses.ready parses.total unread fit).2 root outcome
  obtain ⟨-, same⟩ := parses.fits_of_builds built fun token member =>
    fit token (List.mem_of_mem_take member)
  have words := Parser.words_of_pass parses.ready unread
    (fun token member => TokenSource.sound_of_delivers_text (drawn.read token member).1) tells
    outcome
  rw [words_cons, words_nil, List.append_nil, Node.words_node] at same
  exact same.trans words

/-- Trees lose nothing. If a text is parsed, then the identifiers and the literals of the tree, in
the order in which the syntax of each of its parts writes them, are those of the text, each with its
place and all of them in order. -/
theorem words_of_parse {parser : Parser Node} (isParser : IsParser parser) (typeContext : Bool)
    (source : String) {root : Node}
    (parsed : ({ parser with typeContext } : Parser Node).parse (.ofString source) = .ok root) :
    root.words = (Lexer.ofString source).tokens.flatMap (·.word?.toList) := by
  obtain ⟨goal, expansion, grammar, parses⟩ := isParser.parses typeContext
  exact parses.words_eq source parsed

/-- The grammar of dotted names derives two names with a dot between them and an end mark. -/
theorem generates_dotted {grammar : JavaFrontend.Grammar}
    (built : Grammar.forGoal "DottedName" = .ok grammar) :
    grammar.Generates [.rule grammar.start] [.identifier, .dot, .identifier, .endOfInput] := by
  let alternatives := (Grammar.withGoal "DottedName").alternatives
  have dots : Means alternatives [.token .dot, .token .identifier] [.dot, .identifier] :=
    .token .dot (.token .identifier .nil)
  have inside : Means alternatives
      [.token .identifier, .repeated [.token .dot, .token .identifier]]
      [.identifier, .dot, .identifier] :=
    .token .identifier (.times [[.dot, .identifier]] (by simpa using dots) .nil)
  have member : ⟨"DottedName", [.token .identifier,
      .repeated [.token .dot, .token .identifier]]⟩ ∈ alternatives := by
    decide
  exact generates_of_goal (.fragment "DottedName") built (means_name member inside)

/-- A dotted name is parsed, and the tree has both of its names. -/
theorem words_of_dotted : ∃ (parser : Parser Node) (root : Node), IsParser parser ∧
    ({ parser with typeContext := false } : Parser Node).parse (.ofString "a.b") = .ok root ∧
    root.words = (Lexer.ofString "a.b").tokens.flatMap (·.word?.toList) := by
  obtain ⟨grammar, built⟩ := Grammar.exists_build (.fragment "DottedName") (by decide)
  have made : fragmentParser "DottedName" = .ok (.ofBuilder grammar (Reduction.builder grammar)) := by
    rw [fragmentParser, Grammar.forGoal, built]
    rfl
  have isParser : IsParser (Parser.ofBuilder grammar (Reduction.builder grammar)) := .fragment _ made
  obtain ⟨_, parses⟩ := parses_of_build (.fragment "DottedName") built false
  let tokens : List Token := [⟨.identifier, "a", ⟨1, 1⟩, .none⟩, ⟨.dot, ".", ⟨1, 2⟩, .none⟩,
    ⟨.identifier, "b", ⟨1, 3⟩, .none⟩]
  have waiting : (Lexer.ofString "a.b").pending = tokens ++ [.endOfInput ⟨1, 4⟩] := by
    decide +kernel
  have bare : ∀ token ∈ tokens, token.kind.isValueLiteral = false ∧ token.value = .none := by decide
  have fit (token : Token) (member : token ∈ tokens) : Fitting token := by
    obtain ⟨other, value⟩ := bare token member
    exact fitting_of_sound (.plain other value) (by rw [Token.error?, value])
  have fits : Fitting (.endOfInput ⟨1, 4⟩) := fitting_of_sound (.plain rfl rfl) rfl
  obtain ⟨root, parsed⟩ := (Parser.exists_parse_untold_iff parses.ready parses.total rfl waiting
    (by decide) (by decide) fit fits).mpr
      (.inl ⟨Grammar.Viable.of_generates (generates_dotted built), generates_dotted built⟩)
  exact ⟨_, root, isParser, parsed, words_of_parse isParser false "a.b" parsed⟩

end Java

end JavaFrontend
