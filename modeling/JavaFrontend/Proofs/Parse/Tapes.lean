import JavaFrontend.Proofs.Parse.Attempts
import Mathlib.Data.List.TakeWhile

/-!
Tapes over lists of tokens. However often it is rewound, such a tape hands out the significant
tokens of its list one after the other, and then the end mark (`Tape.Stands`). So a pass over it
reads those tokens in turn, each shift at one of its places as single `>` (`readSplit`), and notes
down no shift but one of the list that it does not split.
-/

namespace JavaFrontend

variable {α : Type}

/-- The tokens that a parser gets to see. -/
def TokenList.significant (source : TokenList) : List Token :=
  source.tokens.filter fun token => !token.kind.isTrivia

theorem TokenList.inside_ofTokens {tokens : List Token} {token : Token}
    (member : token ∈ (ofTokens tokens).significant) :
    token ∈ tokens ∧ token.kind ≠ .endOfInput := by
  have taken := (List.mem_filter.mp member).1
  have before := List.mem_takeWhile_imp taken
  exact ⟨(List.takeWhile_prefix _).subset taken, by simpa using before⟩

/-- The source comes to the end mark or to the first significant token. -/
theorem TokenSource.nextSignificant_list (source : TokenList) :
    (source.significant = [] ∧ ∃ rest, (list source).nextSignificant =
      (.endOfInput source.finish, rest)) ∨
    ∃ token left, source.significant = token :: TokenList.significant ⟨left, source.finish⟩ ∧
      (list source).nextSignificant = (token, .list ⟨left, source.finish⟩) := by
  obtain ⟨tokens, finish⟩ := source
  induction tokens with
  | nil =>
    rw [nextSignificant]
    exact .inl ⟨rfl, _, rfl⟩
  | cons token tokens ih =>
    rw [nextSignificant]
    by_cases trivia : token.kind.isTrivia
    · have same : TokenList.significant ⟨token :: tokens, finish⟩ =
          TokenList.significant ⟨tokens, finish⟩ := by simp [TokenList.significant, trivia]
      rw [same, if_pos (by simp [next, hasMore, trivia])]
      exact ih
    · refine .inr ⟨token, tokens, by simp [TokenList.significant, trivia], ?_⟩
      rw [if_neg (by simp [next, trivia])]
      rfl

/-! ### What a tape hands out -/

namespace Tape

variable {tape : Tape} {before after : List Token} {token : Token}

/-- The tape has handed out the tokens before, none of which is an error, and is to hand out those
after. If it has not come to the end mark of its list, that is the last of them. -/
structure Stands (tape : Tape) (before after : List Token) : Prop where
  read : tape.read.reverse = before
  clean : ∀ token ∈ tape.read ++ tape.ahead, token.error? = none
  left : after = tape.ahead ∨ ∃ source : TokenList, tape.source = .list source ∧
    after = tape.ahead ++ source.significant ++ [.endOfInput source.finish]

theorem stands_start (source : TokenList) :
    Stands { source := .list source } [] (source.significant ++ [Token.endOfInput source.finish]) :=
  ⟨rfl, by simp, .inr ⟨source, rfl, rfl⟩⟩

theorem Stands.rewind (stands : tape.Stands before after) :
    tape.rewind.Stands [] (before ++ after) := by
  obtain ⟨rfl, clean, left⟩ := stands
  refine ⟨rfl, fun token member => clean token ?_, ?_⟩
  · simpa [Tape.rewind] using member
  · rcases left with rfl | ⟨source, listed, rfl⟩
    · exact .inl rfl
    · exact .inr ⟨source, listed, by simp [Tape.rewind]⟩

/-- The next token is handed out, unless it is an error. -/
theorem Stands.next (stands : tape.Stands before (token :: after)) (inTypes : Option Bool) :
    (∃ fault, token.error? = some fault ∧
      tape.next inTypes = .error (.lexical token.position fault)) ∨
    token.error? = none ∧
      ∃ rest, tape.next inTypes = .ok (token, rest) ∧ rest.Stands (before ++ [token]) after := by
  obtain ⟨read, ahead, source⟩ := tape
  obtain ⟨rfl, clean, left⟩ := stands
  cases ahead with
  | cons first ahead =>
    have here : first.error? = none := clean first (by simp)
    have later (other : Token) (member : other ∈ first :: read ++ ahead) :
        other.error? = none := clean other (by simp_all [or_left_comm])
    rcases left with same | ⟨list, listed, same⟩
    · obtain ⟨rfl, rfl⟩ := List.cons.inj same
      exact .inr ⟨here, _, rfl, by simp, later, .inl rfl⟩
    · obtain ⟨rfl, rfl⟩ := List.cons.inj same
      exact .inr ⟨here, _, rfl, by simp, later, .inr ⟨list, listed, rfl⟩⟩
  | nil =>
    rcases left with same | ⟨list, rfl, same⟩
    · cases same
    · have told : inTypes.elim (.list list) (TokenSource.list list).setInTypes =
          .list list := by
        cases inTypes <;> rfl
      have fresh (other : Token) (none : token.error? = none)
          (member : other ∈ token :: read ++ []) : other.error? = .none := by
        rcases List.mem_cons.mp (by simpa using member) with rfl | old
        · exact none
        · exact clean other (by simpa using old)
      unfold Tape.next
      dsimp only
      rw [told]
      obtain ⟨none, rest, found⟩ | ⟨first, left, split, found⟩ :=
        TokenSource.nextSignificant_list list
      · rw [none] at same
        obtain ⟨rfl, rfl⟩ := List.cons.inj same
        rw [found]
        exact .inr ⟨rfl, _, rfl, by simp, fun other => fresh other rfl, .inl rfl⟩
      · rw [split] at same
        obtain ⟨rfl, rfl⟩ := List.cons.inj same
        rw [found]
        cases error : token.error? with
        | some fault => exact .inl ⟨fault, rfl, rfl⟩
        | none =>
          exact .inr ⟨rfl, _, rfl, by simp, fun other => fresh other error, .inr ⟨_, rfl, rfl⟩⟩

end Tape

namespace Parser

variable {parser : Parser α} {before more : List Token} {token : Token} {tape rest : Tape}
  {inTypes : Option Bool} {place position : Position}

/-! ### What a pass makes of it -/

/-- Only a token whose text is none keeps the tape from going on. -/
private theorem fault_of_next {reason : ParseError}
    (stands : tape.Stands before (more ++ [Token.endOfInput place]))
    (failed : tape.next inTypes = .error reason) :
    ∃ token later fault, more = token :: later ∧ token.error? = some fault ∧
      reason = .lexical token.position fault := by
  cases more with
  | nil =>
    rcases stands.next inTypes with ⟨_, error, -⟩ | ⟨-, _, found, -⟩
    · cases error
    · rw [failed] at found
      cases found
  | cons token later =>
    rcases stands.next inTypes with ⟨fault, error, found⟩ | ⟨-, _, found, -⟩
    · rw [failed] at found
      cases found
      exact ⟨token, later, fault, rfl, error, rfl⟩
    · rw [failed] at found
      cases found

/-- A token that the tape hands out is the first of those it has left, or the end mark. -/
private theorem first_of_next (stands : tape.Stands before (more ++ [Token.endOfInput place]))
    (ran : tape.next inTypes = .ok (token, rest)) :
    ∃ later, more ++ [Token.endOfInput place] = token :: later ∧ token.error? = none ∧
      rest.Stands (before ++ [token]) later := by
  obtain ⟨first, later, same⟩ := List.exists_cons_of_ne_nil (List.append_ne_nil_of_right_ne_nil
    more (List.cons_ne_nil (Token.endOfInput place) []))
  rw [same] at stands
  rcases stands.next inTypes with ⟨_, -, found⟩ | ⟨error, _, found, further⟩
  · rw [ran] at found
    cases found
  · rw [ran] at found
    cases found
    exact ⟨later, same, error, further⟩

/-- If none of the tokens left is an end mark, that is the last of what the tape hands out. -/
private theorem finish_of_next (stands : tape.Stands before (more ++ [Token.endOfInput place]))
    (inside : ∀ token ∈ more, token.kind ≠ .endOfInput)
    (ran : tape.next inTypes = .ok (token, rest)) (ended : token.kind = .endOfInput) :
    more = [] ∧ token = .endOfInput place ∧ rest.Stands (before ++ [token]) [] := by
  obtain ⟨later, same, -, further⟩ := first_of_next stands ran
  cases more with
  | nil =>
    obtain ⟨rfl, rfl⟩ := List.cons.inj same
    exact ⟨rfl, rfl, further⟩
  | cons first more =>
    obtain ⟨rfl, -⟩ := List.cons.inj same
    exact absurd ended (inside first List.mem_cons_self)

/-- A token other than the end mark that the tape hands out is the first of those it has left. -/
private theorem further_of_next (stands : tape.Stands before (more ++ [Token.endOfInput place]))
    (ran : tape.next inTypes = .ok (token, rest)) (inside : token.kind ≠ .endOfInput) :
    ∃ later, more = token :: later ∧ token.error? = none ∧
      rest.Stands (before ++ [token]) (later ++ [Token.endOfInput place]) := by
  obtain ⟨later, same, error, further⟩ := first_of_next stands ran
  cases more with
  | nil =>
    obtain ⟨rfl, -⟩ := List.cons.inj same
    exact absurd rfl inside
  | cons first more =>
    obtain ⟨rfl, rfl⟩ := List.cons.inj same
    exact ⟨more, rfl, error, further⟩

/-- Whether a pass notes the token down: a shift that it does not split, behind which a single `>`
could have gone on as well. -/
def notes (parser : Parser α) (splits : List Position) (chart : Chart α) (token : Token) : Bool :=
  token.kind.isRightShift && !isSplit splits token && (parser.expected chart.last).contains .greater

/-- What comes of reading the tokens in turn, the shifts at the places as single `>`, and the end
mark behind them; and the shifts that are noted down after those before. -/
def readSplit (parser : Parser α) (splits : List Position) (finish : Token) (chart : Chart α)
    (shifts : List Position) : List Token → Except ParseError α × List Position
  | [] => ((parser.finish chart finish).1, shifts)
  | token :: rest =>
    match token.error? with
    | some fault => (.error (.lexical token.position fault), shifts)
    | none =>
      let shifts := if parser.notes splits chart token then token.position :: shifts else shifts
      match parser.steps chart (pieces splits token) with
      | (_, some reason) => (.error reason, shifts)
      | (next, none) => parser.readSplit splits finish next shifts rest

/-- A pass over a tape reads the tokens that it is to hand out, and leaves it somewhere among
them. -/
theorem continuePass_stands (parser : Parser α) (splits : List Position) (chart : Chart α)
    (shifts : List Position) (tape : Tape) (before more : List Token)
    (stands : tape.Stands before (more ++ [Token.endOfInput place]))
    (inside : ∀ token ∈ more, token.kind ≠ .endOfInput) :
    ((parser.continuePass splits chart shifts tape).outcome,
          (parser.continuePass splits chart shifts tape).shifts) =
        parser.readSplit splits (.endOfInput place) chart shifts more ∧
      ∃ passed left, more ++ [Token.endOfInput place] = passed ++ left ∧
        (parser.continuePass splits chart shifts tape).tape.Stands (before ++ passed) left := by
  fun_induction continuePass parser splits chart shifts tape generalizing before more with
  | case1 chart shifts tape inTypes reason failed =>
    obtain ⟨token, later, fault, rfl, error, rfl⟩ := fault_of_next stands failed
    refine ⟨?_, [], _, rfl, by simpa using stands⟩
    simp only [readSplit, error]
  | case2 chart shifts tape inTypes token rest ran ended outcome last finished =>
    obtain ⟨rfl, rfl, further⟩ := finish_of_next stands inside ran ended
    exact ⟨by rw [readSplit, finished], [.endOfInput place], [], rfl, further⟩
  | case3 chart shifts tape inTypes token rest ran ended ambiguous noted last reason stepped =>
    obtain ⟨more, rfl, error, further⟩ := further_of_next stands ran ended
    refine ⟨?_, [token], _, rfl, further⟩
    simp only [readSplit, error, stepped]
    rfl
  | case4 chart shifts tape inTypes token rest ran ended ambiguous noted last stepped ih =>
    obtain ⟨more, rfl, error, further⟩ := further_of_next stands ran ended
    obtain ⟨same, passed, left, split, standsAfter⟩ :=
      ih _ _ further fun other member => inside other (List.mem_cons_of_mem _ member)
    refine ⟨?_, token :: passed, left, by rw [List.cons_append, split, List.cons_append], ?_⟩
    · rw [same]
      simp only [readSplit, error, stepped]
      rfl
    · simpa using standsAfter

/-- A shift that is noted down is one of those read, and not at one of the places. -/
theorem mem_shifts_readSplit (parser : Parser α) (splits : List Position) (finish : Token)
    (chart : Chart α) (shifts : List Position) (more : List Token)
    (noted : position ∈ (parser.readSplit splits finish chart shifts more).2) :
    position ∈ shifts ∨ position ∉ splits ∧
      ∃ token ∈ more, token.kind.isRightShift ∧ token.position = position := by
  induction more generalizing chart shifts with
  | nil => exact .inl noted
  | cons token more ih =>
    have here (known : position ∈
        if parser.notes splits chart token then token.position :: shifts else shifts) :
        position ∈ shifts ∨ position ∉ splits ∧
          ∃ other ∈ token :: more, other.kind.isRightShift ∧ other.position = position := by
      split at known
      · rename_i flagged
        rcases List.mem_cons.mp known with rfl | old
        · simp only [notes, isSplit, Bool.and_eq_true, Bool.not_eq_true', Bool.and_eq_false_iff]
            at flagged
          obtain ⟨⟨shift, unsplit⟩, -⟩ := flagged
          refine .inr ⟨?_, token, List.mem_cons_self, shift, rfl⟩
          simpa [shift] using unsplit
        · exact .inl old
      · exact .inl known
    rw [readSplit] at noted
    split at noted
    · exact .inl noted
    · dsimp only at noted
      split at noted
      · exact here noted
      · rcases ih _ _ noted with known | ⟨unsplit, other, member, rest⟩
        · exact here known
        · exact .inr ⟨unsplit, other, List.mem_cons_of_mem _ member, rest⟩

/-- A pass over a list from its first token comes to what comes of reading its tokens. -/
theorem pass_eq_readSplit {source : TokenList} (ready : parser.Ready) (total : parser.Total)
    (splits : List Position) (inside : ∀ token ∈ source.significant, token.kind ≠ .endOfInput)
    (stands : tape.Stands [] (source.significant ++ [Token.endOfInput source.finish])) :
    ∃ chart, parser.Reads [] chart ∧
      ((parser.pass splits tape).outcome, (parser.pass splits tape).shifts) =
        parser.readSplit splits (.endOfInput source.finish) chart [] source.significant := by
  obtain ⟨first, closed⟩ := ChartParser.close_first_succeeds ready total
  refine ⟨_, .start closed, ?_⟩
  rw [pass, closed]
  exact (continuePass_stands parser splits _ [] tape _ _ stands inside).1

end Parser

end JavaFrontend
