import JavaFrontend.Proofs.Token.Lexing
import JavaFrontend.Token.Source

/-!
Lexers that are told where type arguments may close. What they are told makes a difference only
where `>` begins a longer symbol: there a lexer that is told so takes a single `>` of it. All other
tokens, and so all places between them, are the same.
-/

namespace JavaFrontend

/-- Whether the token begins with `>` and goes on. -/
def Token.isJoined (token : Token) : Bool :=
  token.text.toList.head? == some '>' && token.text != ">"

namespace Lexeme

/-! ### The symbols that begin with `>` -/

/-- The characters of which the symbols are made that begin with `>` or with `=`. -/
def isJoint (c : Char) : Bool := c == '>' || c == '='

variable {c : Char}

theorem scan_of_ne (other : c ≠ '>') (inTypes : Bool) (text : List Char) :
    scan inTypes c text = scan false c text := by
  have same : symbol inTypes c text = symbol false c text := by
    simp [symbol_eq, other]
  unfold scan
  rw [same]

theorem mem_firsts_of_joint (joint : isJoint c) : c ∈ firsts := by
  have either : c = '>' ∨ c = '=' := by simpa [isJoint] using joint
  rcases either with rfl | rfl <;> decide

theorem scan_joint (joint : isJoint c) (inTypes : Bool) (text : List Char) :
    scan inTypes c text = symbol inTypes c text := by
  refine scan_eq_symbol (mem_firsts_of_joint joint) ?_ ?_ inTypes
  · rintro rfl
    cases joint
  · rintro rfl
    cases joint

/-- A symbol that begins with `>` or with `=` is made of nothing else. -/
private theorem joint_of_mem_fixed : ∀ kind ∈ Kind.fixed, kind.text.toList.head?.any isJoint →
    kind.text.toList.all isJoint ∧ kind.isOperator := by
  decide +kernel

theorem symbol_joint (joint : isJoint c) (text : List Char) :
    ∃ kind more left, text = more ++ left ∧ kind.text.toList = c :: more ∧ more.all isJoint ∧
      kind.isOperator ∧ symbol false c text = plain more.length kind := by
  obtain ⟨kind, more, left, symbol, spelled, rfl, taken, -⟩ :=
    symbol_longest (mem_firsts_of_joint joint) false text
  obtain ⟨all, operator⟩ := joint_of_mem_fixed kind (Kind.mem_fixed_of_isSymbol symbol)
    (by simpa [spelled] using joint)
  rw [spelled, List.all_cons, Bool.and_eq_true] at all
  exact ⟨kind, more, left, rfl, spelled, all.2, operator, taken⟩

end Lexeme

namespace Position

theorem shift_shift (position : Position) (first second : Nat) :
    (position.shift first).shift second = position.shift (first + second) := by
  simp [shift, Nat.add_assoc]

/-- Characters that end no line take one column each. -/
theorem advance_joint (position : Position) {passed : List Char}
    (joint : passed.all Lexeme.isJoint) (following : List Char) :
    position.advance passed following = position.shift passed.length := by
  refine position.advance_inLine (fun c among => ?_) following
  have here := List.all_eq_true.mp joint c among
  constructor <;> rintro rfl <;> cases here

end Position

/-! ### One token -/

namespace Lexer

variable {lexer : Lexer} {c : Char} {text : List Char} {position : Position}

@[simp] theorem text_setInTypes (lexer : Lexer) (inTypes : Bool) :
    (lexer.setInTypes inTypes).text = lexer.text := rfl

theorem next_setInTypes_of_ne (untold : lexer.inTypes = false)
    (other : lexer.text.head? ≠ some '>') (inTypes : Bool) :
    (lexer.setInTypes inTypes).next = (lexer.next.1, lexer.next.2.setInTypes inTypes) := by
  obtain ⟨text, position, told⟩ := lexer
  cases untold
  cases text with
  | nil => rfl
  | cons c text =>
    have same := Lexeme.scan_of_ne (c := c) (by simpa using other) inTypes text
    unfold next setInTypes
    dsimp only
    rw [same]

/-- Where type arguments may close, `>` is a token of its own. -/
theorem next_greater (position : Position) (text : List Char) :
    next ⟨'>' :: text, position, true⟩ =
      ({ kind := .greater, text := ">", position }, ⟨text, position.shift 1, true⟩) := by
  unfold next
  dsimp only
  rw [Lexeme.scan_joint rfl]
  exact congrArg (Prod.mk _) (congrArg (Lexer.mk text · true)
    (position.advance_joint (show (['>'].all Lexeme.isJoint) from rfl) _))

/-- Elsewhere it is the beginning of a symbol. -/
theorem next_joint (joint : Lexeme.isJoint c) (text : List Char) (position : Position) :
    ∃ kind more left, text = more ++ left ∧ kind.text.toList = c :: more ∧
      more.all Lexeme.isJoint ∧ kind.isOperator ∧
      next ⟨c :: text, position, false⟩ =
        ({ kind, text := kind.text, position }, ⟨left, position.shift (more.length + 1), false⟩) := by
  obtain ⟨kind, more, left, rfl, spelled, all, operator, found⟩ := Lexeme.symbol_joint joint text
  refine ⟨kind, more, left, rfl, spelled, all, operator, ?_⟩
  unfold next
  dsimp only
  rw [Lexeme.scan_joint joint, found]
  have written : String.ofList (c :: more) = kind.text := by
    rw [← spelled, String.ofList_toList]
  simp only [Lexeme.plain, List.take_left, List.drop_left, written]
  rw [Position.advance_joint _ (by simp [joint, all]), List.length_cons]

/-- Either way, it is no trivia. -/
theorem isTrivia_next_greater (joint : lexer.text.head? = some '>') :
    lexer.next.1.kind.isTrivia = false := by
  obtain ⟨text, position, inTypes⟩ := lexer
  obtain ⟨text, rfl⟩ := List.head?_eq_some_iff.mp joint
  cases inTypes with
  | true =>
    rw [next_greater]
    rfl
  | false =>
    obtain ⟨kind, _, _, -, -, -, operator, same⟩ := next_joint (c := '>') rfl text position
    rw [same]
    cases kind <;> first | rfl | cases operator

theorem inTypes_next (lexer : Lexer) : lexer.next.2.inTypes = lexer.inTypes := by
  obtain ⟨text, position, inTypes⟩ := lexer
  cases text <;> rfl

theorem setInTypes_of_eq {inTypes : Bool} (same : lexer.inTypes = inTypes) :
    lexer.setInTypes inTypes = lexer := by
  cases same
  rfl

/-! ### The tokens that a parser sees -/

/-- The tokens to come that are no trivia, and the end mark behind them. -/
def pending (lexer : Lexer) : List Token := lexer.tokens.filter fun token => !token.kind.isTrivia

theorem tokens_cons (more : lexer.text ≠ []) :
    lexer.tokens = lexer.next.1 :: lexer.next.2.tokens := by
  rw [tokens, if_neg more]

theorem pending_end (none : lexer.text = []) : lexer.pending = [.endOfInput lexer.position] := by
  obtain ⟨text, position, inTypes⟩ := lexer
  cases none
  rw [pending, tokens, if_pos rfl]
  rfl

theorem pending_trivia (more : lexer.text ≠ []) (trivia : lexer.next.1.kind.isTrivia) :
    lexer.pending = lexer.next.2.pending := by
  rw [pending, tokens_cons more, List.filter_cons_of_neg (by simpa using trivia)]
  rfl

theorem pending_cons (more : lexer.text ≠ []) (significant : lexer.next.1.kind.isTrivia = false) :
    lexer.pending = lexer.next.1 :: lexer.next.2.pending := by
  rw [pending, tokens_cons more, List.filter_cons_of_pos (by simpa using significant)]
  rfl

/-- The end mark is the last of the tokens to come, and there is no other one. -/
theorem pending_eq_append (lexer : Lexer) : ∃ (tokens : List Token) (place : Position),
    lexer.pending = tokens ++ [Token.endOfInput place] ∧
      ∀ token ∈ tokens, token.kind ≠ .endOfInput := by
  induction length : lexer.text.length using Nat.strongRecOn generalizing lexer with
  | ind n ih =>
    by_cases none : lexer.text = []
    · exact ⟨[], lexer.position, pending_end none, by simp⟩
    obtain ⟨tokens, place, rest, inside⟩ := ih _ (length ▸ length_next_lt none) _ rfl
    by_cases trivia : lexer.next.1.kind.isTrivia
    · exact ⟨tokens, place, (pending_trivia none trivia).trans rest, inside⟩
    · refine ⟨lexer.next.1 :: tokens, place, ?_, List.forall_mem_cons.mpr ⟨?_, inside⟩⟩
      · rw [pending_cons none (eq_false_of_ne_true trivia), rest, List.cons_append]
      · exact mt lexer.sound_next.2.mp none

/-- What holds of whatever a lexer hands out holds of all its tokens. -/
theorem forall_tokens {Holds : Token → Prop} (each : ∀ lexer : Lexer, Holds lexer.next.1)
    (lexer : Lexer) : ∀ token ∈ lexer.tokens, Holds token := by
  induction length : lexer.text.length using Nat.strongRecOn generalizing lexer with
  | ind n ih =>
    by_cases none : lexer.text = []
    · rw [tokens, if_pos none]
      simpa using each lexer
    · rw [tokens_cons none]
      exact List.forall_mem_cons.mpr ⟨each lexer, ih _ (length ▸ length_next_lt none) _ rfl⟩

theorem sound_of_tokens (lexer : Lexer) : ∀ token ∈ lexer.tokens, token.Sound :=
  forall_tokens (fun lexer => lexer.sound_next.1) lexer

/-- No two of the tokens to come are at one place. -/
theorem nodup_pending (lexer : Lexer) : (lexer.pending.map (·.position)).Nodup :=
  List.pairwise_map.mpr ((lexer.sorted_tokens.2.filter _).imp fun before => before.ne)

/-- Blanks and comments in front of the next token are passed, whatever the lexer is told. -/
theorem exists_first (untold : lexer.inTypes = false) : ∃ first : Lexer, first.inTypes = false ∧
    first.pending = lexer.pending ∧ first.next.1.kind.isTrivia = false ∧
    ∀ inTypes, (TokenSource.text (lexer.setInTypes inTypes)).nextSignificant =
      (TokenSource.text (first.setInTypes inTypes)).next := by
  induction length : lexer.text.length using Nat.strongRecOn generalizing lexer with
  | ind n ih =>
    by_cases joint : lexer.text.head? = some '>'
    · refine ⟨lexer, untold, rfl, isTrivia_next_greater joint, fun inTypes => ?_⟩
      rw [TokenSource.nextSignificant, if_neg]
      have still : (lexer.setInTypes inTypes).text.head? = some '>' := joint
      simp [TokenSource.next, isTrivia_next_greater still]
    have same := next_setInTypes_of_ne untold joint
    by_cases trivia : lexer.next.1.kind.isTrivia
    · have more : lexer.text ≠ [] := by
        intro none
        obtain ⟨text, position, inTypes⟩ := lexer
        cases none
        cases trivia
      have less : lexer.next.2.text.length < n := length ▸ length_next_lt more
      obtain ⟨first, still, further, significant, passed⟩ :=
        ih _ less ((inTypes_next lexer).trans untold) rfl
      refine ⟨first, still, further.trans (pending_trivia more trivia).symm, significant,
        fun inTypes => ?_⟩
      rw [TokenSource.nextSignificant, if_pos, ← passed]
      · simp only [TokenSource.next, same]
      · simpa [TokenSource.next, TokenSource.hasMore, hasMore, same, more] using trivia
    · refine ⟨lexer, untold, rfl, eq_false_of_ne_true trivia, fun inTypes => ?_⟩
      rw [TokenSource.nextSignificant, if_neg]
      simp [TokenSource.next, same, trivia]

/-- The token is the next one of the lexer, whatever that is told, unless it begins with `>` and goes
on; where type arguments may close, a single `>` is handed out instead. -/
structure HandsOut (lexer : Lexer) (token : Token) (rest : Lexer) : Prop where
  untold : rest.inTypes = false
  whole : ∀ inTypes, (inTypes = false ∨ token.isJoined = false) →
    (TokenSource.text (lexer.setInTypes inTypes)).nextSignificant =
      (token, .text (rest.setInTypes inTypes))
  joined : token.isJoined → token.error? = none ∧ token.text = token.kind.text ∧
    ∃ more, token.text.toList = '>' :: more ∧
      rest.position = token.position.shift (more.length + 1) ∧
      (TokenSource.text (lexer.setInTypes true)).nextSignificant =
        ({ kind := .greater, text := ">", position := token.position },
          .text ⟨more ++ rest.text, token.position.shift 1, true⟩)

/-- The first token to come is the one that is handed out, and the others are those that come behind
it. -/
theorem exists_handsOut {token : Token} {later : List Token} (untold : lexer.inTypes = false)
    (waiting : lexer.pending = token :: later) :
    ∃ rest : Lexer, lexer.HandsOut token rest ∧
      later = if token.kind = .endOfInput then [] else rest.pending := by
  obtain ⟨first, still, same, significant, passed⟩ := exists_first untold
  rw [← same] at waiting
  have moved (inTypes : Bool) (token : Token) (rest : Lexer)
      (next : (first.setInTypes inTypes).next = (token, rest)) :
      (TokenSource.text (lexer.setInTypes inTypes)).nextSignificant = (token, .text rest) := by
    rw [passed, TokenSource.next, next]
  by_cases joint : first.text.head? = some '>'
  · obtain ⟨text, position, inTypes⟩ := first
    cases still
    obtain ⟨text, rfl⟩ := List.head?_eq_some_iff.mp joint
    obtain ⟨kind, more, left, rfl, spelled, -, operator, found⟩ :=
      next_joint (c := '>') rfl text position
    rw [pending_cons (List.cons_ne_nil _ _) significant, found] at waiting
    obtain ⟨rfl, rfl⟩ := List.cons.inj waiting
    have inside : kind ≠ .endOfInput := by
      rintro rfl
      cases operator
    refine ⟨⟨left, position.shift (more.length + 1), false⟩, ⟨rfl, fun inTypes single => ?_,
      fun _ => ⟨rfl, rfl, more, spelled, rfl, moved true _ _ (next_greater position _)⟩⟩,
      (if_neg inside).symm⟩
    refine moved inTypes _ _ ?_
    cases inTypes with
    | false => exact found
    | true =>
      have alone : kind.text = ">" := by simpa [Token.isJoined, spelled] using single
      obtain rfl : kind = .greater := by
        revert operator alone
        cases kind <;> decide
      obtain rfl : more = [] := (List.cons.inj spelled).2.symm
      exact next_greater position left
  · have next := next_setInTypes_of_ne still joint
    obtain ⟨text, position, inTypes⟩ := first
    cases still
    cases text with
    | nil =>
      rw [pending_end rfl] at waiting
      obtain ⟨rfl, rfl⟩ := List.cons.inj waiting
      exact ⟨⟨[], position, false⟩, ⟨rfl, fun inTypes _ => moved inTypes _ _ (next inTypes),
        fun joined => by cases joined⟩, rfl⟩
    | cons c text =>
      rw [pending_cons (List.cons_ne_nil _ _) significant] at waiting
      obtain ⟨rfl, rfl⟩ := List.cons.inj waiting
      have inside := mt (sound_next ⟨c :: text, position, false⟩).2.mp (List.cons_ne_nil _ _)
      refine ⟨_, ⟨inTypes_next _, fun inTypes _ => moved inTypes _ _ (next inTypes),
        fun joined => absurd ?_ joint⟩, (if_neg inside).symm⟩
      obtain ⟨kind, value, found⟩ := next_cons c text position false
      rw [found] at joined
      simp only [Token.isJoined, String.toList_ofList, Bool.and_eq_true, beq_iff_eq] at joined
      exact joined.1

/-- A token that begins with `>` and goes on is written as its kind is. -/
theorem text_of_isJoined {token : Token} {front back : List Token} (untold : lexer.inTypes = false)
    (waiting : lexer.pending = front ++ token :: back) (joined : token.isJoined) :
    token.text = token.kind.text := by
  induction front generalizing lexer with
  | nil =>
    obtain ⟨_, handsOut, -⟩ := exists_handsOut untold waiting
    exact (handsOut.joined joined).2.1
  | cons first front ih =>
    obtain ⟨rest, handsOut, later⟩ := exists_handsOut untold waiting
    split at later
    · simp at later
    · exact ih handsOut.untold later.symm

end Lexer

theorem TokenSource.nextSignificant_greater (position : Position) (text : List Char) :
    (TokenSource.text ⟨'>' :: text, position, true⟩).nextSignificant =
      ({ kind := .greater, text := ">", position }, .text ⟨text, position.shift 1, true⟩) := by
  have next : (TokenSource.text ⟨'>' :: text, position, true⟩).next =
      ({ kind := .greater, text := ">", position }, .text ⟨text, position.shift 1, true⟩) := by
    rw [TokenSource.next, Lexer.next_greater]
  rw [nextSignificant, next, if_neg (by simp [Kind.isTrivia])]

end JavaFrontend
