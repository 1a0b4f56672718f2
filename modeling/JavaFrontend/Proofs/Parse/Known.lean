import JavaFrontend.Proofs.Parse.TypeContext
import JavaFrontend.Proofs.Token.Spaced

/-!
What tapes over texts know. The tokens that were taken from a text stand in it one behind the other,
and later passes know those that earlier ones knew, and maybe more behind them. So no place is split
twice, and a parse of a text ends because its last pass asks for no other one.
-/

namespace JavaFrontend

variable {α : Type} {source : List Char}

/-! ### Tokens of a text -/

/-- The token is written in the text behind the first `k` characters. -/
structure Token.At (source : List Char) (k : Nat) (token : Token) : Prop where
  position : token.position = .behind source k
  here : token.text.toList <+: source.drop k
  within : k + token.text.toList.length ≤ source.length
  /-- Only the end mark is not written. -/
  ended : token.kind = .endOfInput ↔ token.text.toList = []
  last : token.kind = .endOfInput → k = source.length
  shift : token.kind.isRightShift → token.text = token.kind.text

/-- The tokens stand in the text one behind the other, between the characters behind the first `k`
and the first `stop`. -/
inductive Chain (source : List Char) : Nat → List Token → Nat → Prop where
  | nil (k : Nat) : Chain source k [] k
  | cons {k start stop : Nat} {token : Token} {tokens : List Token} (later : k ≤ start)
    (here : token.At source start)
    (rest : Chain source (start + token.text.toList.length) tokens stop) :
    Chain source k (token :: tokens) stop

namespace Chain

variable {k stop : Nat} {tokens others : List Token} {token : Token}

theorem le (chain : Chain source k tokens stop) : k ≤ stop := by
  induction chain with
  | nil => exact Nat.le_refl _
  | cons later _ _ ih => exact Nat.le_trans later (Nat.le_trans (Nat.le_add_right _ _) ih)

theorem append {further : Nat} (first : Chain source k tokens stop)
    (second : Chain source stop others further) : Chain source k (tokens ++ others) further := by
  induction first with
  | nil => exact second
  | cons later here _ ih => exact .cons later here (ih second)

theorem split (chain : Chain source k (tokens ++ others) stop) :
    ∃ between, Chain source k tokens between ∧ Chain source between others stop := by
  induction tokens generalizing k with
  | nil => exact ⟨k, .nil k, chain⟩
  | cons token tokens ih =>
    cases chain with
    | cons later here rest =>
      obtain ⟨between, first, second⟩ := ih rest
      exact ⟨between, .cons later here first, second⟩

theorem mem (chain : Chain source k tokens stop) (member : token ∈ tokens) :
    ∃ start, token.At source start ∧ k ≤ start ∧ start + token.text.toList.length ≤ stop := by
  induction chain with
  | nil => cases member
  | cons later here rest ih =>
    rcases List.mem_cons.mp member with rfl | among
    · exact ⟨_, here, later, rest.le⟩
    · obtain ⟨start, there, behind, before⟩ := ih among
      exact ⟨start, there, by omega, before⟩

/-- The last of the tokens, if there is one, ends where all of them do. -/
theorem stop_cases (chain : Chain source k tokens stop) : stop = k ∧ tokens = [] ∨
    ∃ token ∈ tokens, ∃ start, token.At source start ∧
      stop = start + token.text.toList.length := by
  induction chain with
  | nil => exact .inl ⟨rfl, rfl⟩
  | @cons _ start _ token _ _ here _ ih =>
    rcases ih with ⟨rfl, -⟩ | ⟨other, member, place, there, same⟩
    · exact .inr ⟨token, List.mem_cons_self, start, here, rfl⟩
    · exact .inr ⟨other, List.mem_cons_of_mem _ member, place, there, same⟩

end Chain

/-! ### The tokens of a tape -/

namespace Tape

/-- All tokens that were ever taken from the source. -/
def known (tape : Tape) : List Token := tape.read.reverse ++ tape.ahead

@[simp] theorem known_rewind (tape : Tape) : tape.rewind.known = tape.known := rfl

/-- The tokens of the tape stand in the text one behind the other, and its source has passed
them. -/
def Through (source : List Char) (tape : Tape) : Prop :=
  ∃ k told, k ≤ source.length ∧ tape.source = .text (Lexer.passing source k told) ∧
    Chain source 0 tape.known k

variable {tape rest : Tape} {token : Token} {told : Option Bool} {k : Nat}

theorem through_start (source : String) : Through source.toList { source := .ofString source } :=
  ⟨0, false, Nat.zero_le _, rfl, .nil 0⟩

theorem at_of_finds {told : Bool} {gap word left : List Char} (within : k ≤ source.length)
    (finds : TokenSource.Finds source k told gap word left token) :
    token.At source (k + gap.length) ∧
      k + (gap.length + word.length) = k + gap.length + token.text.toList.length ∧
      k + (gap.length + word.length) ≤ source.length := by
  have length := congrArg List.length finds.here
  rw [List.length_drop, List.length_append, List.length_append] at length
  have drop : source.drop (k + gap.length) = word ++ left := by
    rw [← List.drop_drop, finds.here, List.drop_left]
  refine ⟨⟨finds.position, ?_, ?_, ?_, fun ended => ?_, finds.shift⟩, ?_, ?_⟩
  · rw [finds.written, drop]
    exact List.prefix_append _ _
  · rw [finds.written]
    omega
  · rw [finds.written, finds.ended.1]
  · have none := finds.ended.1.mpr ended
    have nothing := finds.ended.2 none
    rw [none, nothing] at length
    simp only [List.length_nil] at length
    omega
  · rw [finds.written]
    omega
  · omega

/-- A tape that knows no token to hand out takes one from the text. -/
theorem next_text {read : List Token} {before : Bool} {later : TokenSource}
    (found : TokenSource.after source k (told.getD before) = (token, later)) :
    next ⟨read, [], .text (Lexer.passing source k before)⟩ told = match token.error? with
      | some reason => .error (.lexical token.position reason)
      | none => .ok (token, ⟨token :: read, [], later⟩) := by
  have asked : told.elim (TokenSource.text (Lexer.passing source k before))
      (TokenSource.text (Lexer.passing source k before)).setInTypes =
        .text (Lexer.passing source k (told.getD before)) := by
    cases told <;> rfl
  have next : (TokenSource.text (Lexer.passing source k (told.getD before))).nextSignificant =
      (token, later) := found
  unfold Tape.next
  dsimp only
  rw [asked, next]
  cases token.error? <;> rfl

theorem known_of_next (ran : tape.next told = .ok (token, rest)) :
    rest.known = tape.known ∧ tape.ahead ≠ [] ∨
      tape.ahead = [] ∧ rest.ahead = [] ∧ rest.known = tape.known ++ [token] := by
  obtain ⟨read, ahead, source⟩ := tape
  unfold Tape.next at ran
  cases ahead with
  | cons first ahead =>
    cases ran
    exact .inl ⟨by simp [known], List.cons_ne_nil _ _⟩
  | nil =>
    dsimp only at ran
    split at ran
    · cases ran
    · cases ran
      exact .inr ⟨rfl, rfl, by simp [known]⟩

theorem known_grows (ran : tape.next told = .ok (token, rest)) : tape.known <+: rest.known := by
  rcases known_of_next ran with ⟨same, -⟩ | ⟨-, -, more⟩
  · rw [same]
  · exact more ▸ List.prefix_append _ _

theorem Through.next (through : tape.Through source) (ran : tape.next told = .ok (token, rest)) :
    rest.Through source := by
  obtain ⟨read, ahead, _⟩ := tape
  obtain ⟨k, before, within, rfl, chain⟩ := through
  cases ahead with
  | cons first ahead =>
    cases ran
    exact ⟨k, before, within, rfl, by simpa [known] using chain⟩
  | nil =>
    obtain ⟨gap, word, left, first, finds⟩ := TokenSource.exists_finds source k (told.getD before)
    rw [next_text finds.found] at ran
    split at ran
    · cases ran
    · cases ran
      obtain ⟨here, length, inside⟩ := at_of_finds within finds
      refine ⟨_, _, inside, rfl, ?_⟩
      rw [length]
      have all := chain.append (.cons (Nat.le_add_right k gap.length) here (.nil _))
      simpa [known] using all

theorem Through.rewind (through : tape.Through source) : tape.rewind.Through source := by
  obtain ⟨k, before, within, source_, chain⟩ := through
  exact ⟨k, before, within, source_, chain⟩

theorem Through.pass {parser : Parser α} {splits : List Position}
    (through : tape.Through source) : (parser.pass splits tape).tape.Through source :=
  parser.kept_pass (fun _ _ _ _ through => through.next) through

end Tape

namespace Parser

variable {parser : Parser α} {splits shifts : List Position} {tape : Tape} {chart : Chart α}
  {earlier later : List (Pass α)} {pass : Pass α} {position : Position}

/-! ### One pass knows more than the other -/

theorem known_pass (parser : Parser α) (splits : List Position) (tape : Tape) :
    tape.known <+: (parser.pass splits tape).tape.known :=
  @kept_pass _ parser (tape.known <+: ·.known) splits tape
    (fun _ _ _ _ before ran => before.trans (Tape.known_grows ran)) (List.prefix_refl _)

theorem known_attemptsFrom (parser : Parser α) (splits : List Position) (tape : Tape) (fuel : Nat)
    {first : Pass α} {rest : List (Pass α)}
    (came : parser.attemptsFrom splits tape fuel = (first, rest)) :
    (∀ pass ∈ first :: rest, tape.known <+: pass.tape.known) ∧
      (first :: rest).Pairwise fun pass later => pass.tape.known <+: later.tape.known := by
  induction fuel generalizing splits tape first rest with
  | zero =>
    obtain ⟨rfl, rfl⟩ := Prod.mk.inj came
    simpa using known_pass parser splits tape
  | succ fuel ih =>
    have here := known_pass parser splits tape
    cases again : Pass.retry? (parser.pass splits tape) with
    | none =>
      rw [attemptsFrom, again] at came
      obtain ⟨rfl, rfl⟩ := Prod.mk.inj came
      simpa using here
    | some place =>
      cases next : parser.attemptsFrom (place :: splits) (parser.pass splits tape).tape.rewind fuel with
      | mk following last =>
        rw [attemptsFrom, again] at came
        dsimp only at came
        rw [next] at came
        obtain ⟨rfl, rfl⟩ := Prod.mk.inj came
        obtain ⟨more, sorted⟩ := ih _ _ next
        rw [Tape.known_rewind] at more
        exact ⟨List.forall_mem_cons.mpr ⟨here, fun pass member => here.trans (more pass member)⟩,
          List.pairwise_cons.mpr ⟨more, sorted⟩⟩

/-- The last pass of a parse knows all tokens that were ever taken. -/
theorem known_of_last {source : TokenSource} (split : parser.passes source = earlier ++ [pass])
    {other : Pass α} (member : other ∈ parser.passes source) :
    other.tape.known <+: pass.tape.known := by
  have sorted := (known_attemptsFrom parser [] { source } source.remaining rfl).2
  change (parser.passes source).Pairwise _ at sorted
  rw [split] at sorted member
  rcases List.mem_append.mp member with before | here
  · exact (List.pairwise_append.mp sorted).2.2 other before pass (List.mem_singleton_self pass)
  · exact List.mem_singleton.mp here ▸ List.prefix_refl _

/-! ### The last pass -/

theorem read_of_continuePass {token : Token} (member : token ∈ tape.read) :
    token ∈ (parser.continuePass splits chart shifts tape).tape.read := by
  fun_induction continuePass parser splits chart shifts tape with
  | case1 => exact member
  | case2 _ _ _ _ _ _ ran =>
    rw [Tape.read_of_next ran]
    exact List.mem_cons_of_mem _ member
  | case3 _ _ _ _ _ _ ran =>
    rw [Tape.read_of_next ran]
    exact List.mem_cons_of_mem _ member
  | case4 _ _ _ _ _ _ ran _ _ _ _ _ ih =>
    exact ih (Tape.read_of_next ran ▸ List.mem_cons_of_mem _ member)

theorem mem_noting {token : Token} (noted : position ∈ parser.noting splits chart token shifts) :
    position ∈ shifts ∨
      position ∉ splits ∧ token.kind.isRightShift ∧ token.position = position := by
  unfold noting at noted
  split at noted
  · next flagged =>
    rcases List.mem_cons.mp noted with rfl | old
    · simp only [notes, isSplit, Bool.and_eq_true, Bool.not_eq_true', Bool.and_eq_false_iff]
        at flagged
      obtain ⟨⟨shift, unsplit⟩, -⟩ := flagged
      exact .inr ⟨by simpa [shift] using unsplit, shift, rfl⟩
    · exact .inl old
  · exact .inl noted

/-- A pass notes down only shifts that it has read and does not split. -/
theorem shifts_of_continuePass
    (noted : position ∈ (parser.continuePass splits chart shifts tape).shifts) :
    position ∈ shifts ∨ position ∉ splits ∧
      ∃ token ∈ (parser.continuePass splits chart shifts tape).tape.read,
        token.kind.isRightShift ∧ token.position = position := by
  induction length : tape.remaining using Nat.strongRecOn generalizing chart shifts tape with
  | ind n ih =>
    cases ran : tape.next (parser.telling chart) with
    | error reason =>
      rw [continuePass_error ran] at noted
      exact .inl noted
    | ok handed =>
      obtain ⟨token, rest⟩ := handed
      by_cases ended : token.kind = .endOfInput
      · rw [continuePass_end ran ended] at noted
        exact .inl noted
      have here (known : position ∈ parser.noting splits chart token shifts) {tokens : List Token}
          (read : token ∈ tokens) : position ∈ shifts ∨ position ∉ splits ∧
            ∃ token ∈ tokens, token.kind.isRightShift ∧ token.position = position :=
        (mem_noting known).imp_right fun ⟨unsplit, shift, there⟩ =>
          ⟨unsplit, token, read, shift, there⟩
      have read : token ∈ rest.read := Tape.read_of_next ran ▸ List.mem_cons_self
      rw [continuePass_token ran ended] at noted ⊢
      split at noted
      · exact here noted read
      · rcases ih _ (length ▸ Tape.remaining_next_lt ran ended) noted rfl with before | found
        · exact here before (read_of_continuePass read)
        · exact .inr found

theorem shifts_of_pass (noted : position ∈ (parser.pass splits tape).shifts) :
    position ∉ splits ∧ ∃ token ∈ (parser.pass splits tape).tape.read,
      token.kind.isRightShift ∧ token.position = position := by
  unfold pass at noted ⊢
  split at noted
  · cases noted
  · exact (shifts_of_continuePass noted).resolve_left List.not_mem_nil

/-- So what is split for another pass is the place of a character of the text that was not split
before. -/
theorem place_of_retry (through : tape.Through source)
    (again : Pass.retry? (parser.pass splits tape) = some position) :
    position ∉ splits ∧ position ∈ (List.range source.length).map (.behind source) := by
  obtain ⟨fresh, token, read, shift, rfl⟩ :=
    shifts_of_pass (List.mem_of_head? (Pass.head?_of_retry again))
  obtain ⟨k, told, within, -, chain⟩ := @Tape.Through.pass _ _ _ parser splits through
  obtain ⟨start, here, -, before⟩ :=
    chain.mem (List.mem_append_left _ (List.mem_reverse.mpr read))
  refine ⟨fresh, List.mem_map.mpr ⟨start, List.mem_range.mpr ?_, here.position.symm⟩⟩
  have written : token.text.toList ≠ [] := by
    rw [ne_eq, ← here.ended]
    intro ended
    rw [ended] at shift
    cases shift
  have some := List.length_pos_iff.mpr written
  omega

/-- The last pass over a text asks for no other one. -/
theorem final_of_text {source : String}
    (split : parser.passes (.ofString source) = earlier ++ [pass]) : pass.retry? = none := by
  obtain ⟨tape, ⟨through, distinct, inside⟩, -, rfl⟩ := splits_of_passes
    (fun splits tape => tape.Through source.toList ∧ splits.Nodup ∧
      splits ⊆ (List.range source.toList.length).map (.behind source.toList))
    ⟨Tape.through_start source, List.nodup_nil, List.nil_subset _⟩
    (fun splits tape position ⟨through, distinct, inside⟩ again =>
      have ⟨fresh, here⟩ := place_of_retry through again
      ⟨through.pass.rewind, List.nodup_cons.mpr ⟨fresh, distinct⟩,
        List.cons_subset.mpr ⟨here, inside⟩⟩) split
  cases again : Pass.retry? (parser.pass (splitsAfter earlier) tape) with
  | none => rfl
  | some position =>
    have all := (final_of_last split).resolve_left (by simp [again])
    obtain ⟨fresh, here⟩ := place_of_retry through again
    have most := (List.nodup_cons.mpr ⟨fresh, distinct⟩).subperm
      (List.cons_subset.mpr ⟨here, inside⟩) |>.length_le
    rw [List.length_cons, length_splitsAfter split, all, List.length_map, List.length_range] at most
    exact absurd most (Nat.not_succ_le_self _)

end Parser

end JavaFrontend
