import JavaFrontend.Proofs.Parse.Known
import JavaFrontend.Proofs.Parse.Parallel

/-!
Layout makes no difference. If layout is put behind tokens that a parser takes from a text, each time
beginning with a blank, then it takes the same tokens from the text with the layout in it, in all its
passes. So it makes the same of both texts but for the places of things.
-/

namespace JavaFrontend

variable {α : Type} {extra : Nat → List Char} {source : List Char} {k : Nat} {told : Bool}

/-! ### Layout behind tokens -/

/-- The token stands in the text and ends with its first `i` characters. -/
def Token.EndsAt (source : List Char) (i : Nat) (token : Token) : Prop :=
  ∃ k, token.position = .behind source k ∧ i = k + token.text.toList.length

/-- There is nothing but layout behind the last of the tokens. -/
def Finished (taken : Token → Prop) (source : List Char) : Prop :=
  ∃ k, (k = 0 ∨ ∃ token, taken token ∧ token.kind ≠ .endOfInput ∧ token.EndsAt source k) ∧
    (∀ token i, taken token → token.kind ≠ .endOfInput → token.EndsAt source i → i ≤ k) ∧
    Layout (source.drop k)

/-- What is put into a text comes behind tokens that are taken from it, and is layout that begins with
a blank. -/
structure Behind (taken : Token → Prop) (source : List Char) (extra : Nat → List Char) : Prop where
  layout : Spacious extra
  behind (i : Nat) : extra i ≠ [] → ∃ token, taken token ∧ token.EndsAt source i

/-- Moreover, behind the end mark something is put only if the text has no comment without an end
there; and behind a point that stands directly behind the digits of an integer, only if something is
put behind the integer too, for the digits and the point could be taken for another number. -/
structure Between (taken : Token → Prop) (source : List Char) (extra : Nat → List Char) : Prop
    extends Behind taken source extra where
  ended (i : Nat) : extra i ≠ [] → Finished taken source ∨
    ∃ token, taken token ∧ token.kind ≠ .endOfInput ∧ token.EndsAt source i
  pointed (token : Token) (i : Nat) : taken token → token.kind = .intLiteral →
    Lexeme.IsDigits token.text.toList → token.EndsAt source i → source[i]? = some '.' →
    extra i = [] → extra (i + 1) = []

/-! ### Tokens beside one another -/

@[simp] theorem Token.error?_placed (token : Token) (place : Position) :
    Token.error? { token with position := place } = token.error? := rfl

theorem Token.At.eq_of_endsAt {token : Token} {i : Nat} (here : token.At source k)
    (ends : token.EndsAt source i) : i = k + token.text.toList.length := by
  obtain ⟨start, position, rfl⟩ := ends
  rw [Position.behind_injective source (position.symm.trans here.position)]

theorem ordered_moved (extra : Nat → List Char) (source : List Char) :
    Ordered (Moved extra source) := by
  rintro _ _ _ _ ⟨k, rfl, rfl⟩ ⟨n, rfl, rfl⟩
  rw [Position.compare_behind, Position.compare_behind]
  rcases Nat.lt_trichotomy k n with less | rfl | more
  · rw [Nat.compare_eq_lt.mpr less, Nat.compare_eq_lt.mpr (strictMono_offset extra less)]
  · rw [Nat.compare_eq_eq.mpr rfl, Nat.compare_eq_eq.mpr rfl]
  · rw [Nat.compare_eq_gt.mpr more, Nat.compare_eq_gt.mpr (strictMono_offset extra more)]

/-- The parts of a shift are at places of the text. -/
theorem shift_behind {word rest : List Char} (here : source.drop k = word ++ rest)
    (joint : word.all Lexeme.isJoint) {i : Nat} (within : i ≤ word.length) :
    (Position.behind source k).shift i = .behind source (k + i) := by
  have split : source.drop k = word.take i ++ (word.drop i ++ rest) := by
    rw [← List.append_assoc, List.take_append_drop, here]
  have passed := Position.advance_behind k _ _ split
  have all : (word.take i).all Lexeme.isJoint := by
    rw [List.all_eq_true] at joint ⊢
    exact fun c member => joint c (List.mem_of_mem_take member)
  rw [Position.advance_joint _ all, List.length_take, Nat.min_eq_left within] at passed
  exact passed

/-- A shift is two or three `>`. -/
theorem shift_text {token : Token} (shift : token.kind.isRightShift)
    (spelled : token.text = token.kind.text) :
    token.text.toList.all Lexeme.isJoint ∧
      max 1 token.text.utf8ByteSize = token.text.toList.length := by
  have both : ∀ kind ∈ [Kind.rightShift, Kind.unsignedShift], kind.text.toList.all Lexeme.isJoint ∧
      max 1 kind.text.utf8ByteSize = kind.text.toList.length := by decide +kernel
  rw [spelled]
  refine both token.kind ?_
  revert shift
  cases token.kind <;> simp [Kind.isRightShift]

/-- A token of the text is beside the same token where its characters are in the text with more in
it. -/
theorem beside_moved {token : Token} (here : token.At source k)
    (none : ∀ i, 0 < i → i < token.text.toList.length → extra (k + i) = []) :
    token.Beside (Moved extra source)
      { token with position := .behind (spaced extra source) (offset extra k) } := by
  refine ⟨rfl, ⟨k, here.position, rfl⟩, fun shift i bound => ?_⟩
  obtain ⟨joint, size⟩ := shift_text shift (here.shift shift)
  rw [size] at bound
  obtain ⟨rest, whole⟩ := here.here
  have some : token.text.toList ≠ [] := List.ne_nil_of_length_pos (Nat.zero_lt_of_lt bound)
  have there := drop_spaced extra (Nat.le_trans (Nat.le_add_right k _) here.within)
  rw [← whole, spacedFrom_append some none] at there
  refine ⟨k + i, ?_, ?_⟩
  · rw [here.position, shift_behind whole.symm joint bound.le]
  · rw [shift_behind there joint bound.le, offset_add fun j pos less => none j pos (by omega)]

/-! ### One token -/

namespace TokenSource

open Lexer (passing)

variable {tokens known more : List Token} {token : Token} {gap word rest : List Char} {stop : Nat}

/-- Inside of what is taken next, and in the gap in front of it, nothing is put. -/
theorem extra_eq_nil (between : Between (· ∈ tokens) source extra)
    (all : tokens = known ++ token :: more) (before : Chain source 0 known k)
    (here : token.At source (k + gap.length))
    (after : Chain source (k + gap.length + token.text.toList.length) more stop) {i : Nat}
    (past : k < i) (inside : i < k + gap.length + token.text.toList.length) : extra i = [] := by
  by_contra some
  obtain ⟨other, member, ends⟩ := between.behind i some
  rw [all] at member
  rcases List.mem_append.mp member with among | among
  · obtain ⟨start, there, -, bound⟩ := before.mem among
    have := there.eq_of_endsAt ends
    omega
  rcases List.mem_cons.mp among with rfl | among
  · have := here.eq_of_endsAt ends
    omega
  · obtain ⟨start, there, bound, -⟩ := after.mem among
    have := there.eq_of_endsAt ends
    omega

/-- Layout that is put in front of the next token is passed. -/
theorem after_extra (layout : Spacious extra) (within : k + 1 ≤ source.length) (told : Bool) :
    after (spaced extra source) (offset extra k + 1) told =
      after (spaced extra source) (offset extra (k + 1)) told :=
  after_layout (layout.layout (k + 1)) (drop_spaced_gap extra within)

/-- What is handed out, and where the lexer of the text with more in it stands then. -/
def TakenBeside (extra : Nat → List Char) (source : List Char) (start stop : Nat) (token : Token)
    (taken : Token × TokenSource) (told : Bool) : Prop :=
  ∃ place, taken = ({ token with position := .behind (spaced extra source) (offset extra start) },
      .text (passing (spaced extra source) place told)) ∧
    ∀ told, after (spaced extra source) place told =
      after (spaced extra source) (offset extra stop) told

/-- Behind the digits of an integer, two points stay together. -/
theorem pointed_extra (between : Between (· ∈ tokens) source extra) (member : token ∈ tokens)
    {stop : Nat} (ends : token.EndsAt source stop) (behind : source.drop stop = rest)
    (int : token.kind = .intLiteral) (digits : Lexeme.IsDigits token.text.toList) :
    Lexeme.Pointed rest (extra stop ++ spacedFrom extra stop rest) := by
  rintro left rfl point
  have none : extra stop = [] := by
    rcases between.layout stop with none | ⟨layout, -, same⟩
    · exact none
    · rw [same] at point
      exact absurd (Option.some.inj point) (by decide)
  have first : source[stop]? = some '.' := by
    rw [← List.head?_drop, behind]
    rfl
  have together := between.pointed token stop member int digits ends first none
  rw [none, List.nil_append, spacedFrom, together]
  rfl

/-- A token that is written in the text is taken from the text with more in it too. -/
theorem after_spaced_word (between : Between (· ∈ tokens) source extra)
    (all : tokens = known ++ token :: more) (before : Chain source 0 known k)
    (within : k ≤ source.length)
    (later : Chain source (k + gap.length + token.text.toList.length) more stop)
    (finds : Finds source k told gap word rest token) (clean : token.error? = none)
    (some : word ≠ []) :
    TakenBeside extra source (k + gap.length) (k + (gap.length + word.length)) token
      (after (spaced extra source) (offset extra k) told) told := by
  obtain ⟨here, length, inside⟩ := Tape.at_of_finds within finds
  have pos := List.length_pos_iff.mpr some
  have none (i : Nat) (past : 0 < i) (bound : i < gap.length + word.length) :
      extra (k + i) = [] :=
    extra_eq_nil between all before here later (by omega) (by omega)
  have behind : source.drop (k + (gap.length + word.length)) = rest := by
    rw [← List.drop_drop, finds.here, ← List.append_assoc, ← List.length_append, List.drop_left]
  have there : (spaced extra source).drop (offset extra k) = gap ++ (word ++
      (extra (k + (gap.length + word.length)) ++
        spacedFrom extra (k + (gap.length + word.length)) rest)) := by
    rw [drop_spaced extra within, finds.here, ← List.append_assoc,
      spacedFrom_append (by simp [some]) (by simpa using none), List.length_append,
      List.append_assoc]
  have follows : Lexeme.Follows token.kind word rest
      (extra (k + (gap.length + word.length)) ++
        spacedFrom extra (k + (gap.length + word.length)) rest) :=
    ⟨between.layout.loose _ rest, fun int digits =>
      pointed_extra between (by simp [all]) ⟨_, here.position, length⟩ behind int
        (finds.written ▸ digits)⟩
  refine ⟨offset extra k + (gap.length + word.length),
    (finds.stays _ _ _ there (.inr ⟨some, clean, follows⟩)).trans ?_, fun told => ?_⟩
  · rw [offset_add fun i past bound => none i past (by omega)]
  · obtain ⟨less, same⟩ : ∃ less, gap.length + word.length = less + 1 :=
      ⟨gap.length + word.length - 1, by omega⟩
    rw [same] at none inside ⊢
    have start : offset extra k + (less + 1) = offset extra (k + less) + 1 := by
      rw [offset_add fun i past bound => none i past (by omega), Nat.add_assoc]
    rw [start]
    exact after_extra between.layout inside told

/-- If there is a gap in front of the end mark and something is put behind it, then all of the gap
is layout. -/
theorem layout_of_finished (between : Between (· ∈ tokens) source extra)
    (all : tokens = known ++ token :: more) (before : Chain source 0 known k)
    (here : token.At source (k + gap.length)) (ended : token.kind = .endOfInput)
    (later : Chain source (k + gap.length + token.text.toList.length) more stop)
    (some : gap ≠ []) (filled : extra (k + gap.length) ≠ []) (whole : source.drop k = gap) :
    Layout gap := by
  have pos := List.length_pos_iff.mpr some
  have finish := here.last ended
  have written (other : Token) (i : Nat) (member : other ∈ tokens)
      (inside : other.kind ≠ .endOfInput) (ends : other.EndsAt source i) : i ≤ k := by
    rw [all] at member
    rcases List.mem_append.mp member with among | among
    · obtain ⟨start, there, -, bound⟩ := before.mem among
      exact there.eq_of_endsAt ends ▸ bound
    rcases List.mem_cons.mp among with rfl | among
    · exact absurd ended inside
    · obtain ⟨start, there, bound, -⟩ := later.mem among
      have nonempty := List.length_pos_iff.mpr (mt there.ended.mpr inside)
      have := there.within
      omega
  obtain ⟨stop, begins, most, layout⟩ := (between.ended _ filled).resolve_right
    fun ⟨other, member, inside, ends⟩ => by
      have := written other _ member inside ends
      omega
  have least : stop ≤ k := by
    rcases begins with rfl | ⟨first, among, inside, there⟩
    · exact Nat.zero_le _
    · exact written first stop among inside there
  have same : stop = k := by
    refine Nat.le_antisymm least ?_
    rcases before.stop_cases with ⟨rfl, -⟩ | ⟨first, among, start, there, rfl⟩
    · exact Nat.zero_le _
    · refine most first _ (by rw [all]; exact List.mem_append_left _ among) (fun marked => ?_)
        ⟨start, there.position, rfl⟩
      have := there.last marked
      omega
  rwa [same, whole] at layout

/-- The end mark is taken from the text with more in it too. -/
theorem after_spaced_end (between : Between (· ∈ tokens) source extra)
    (all : tokens = known ++ token :: more) (before : Chain source 0 known k)
    (within : k ≤ source.length)
    (later : Chain source (k + gap.length + token.text.toList.length) more stop)
    (finds : Finds source k told gap [] rest token) :
    TakenBeside extra source (k + gap.length) (k + (gap.length + 0)) token
      (after (spaced extra source) (offset extra k) told) told := by
  obtain ⟨here, length, inside⟩ := Tape.at_of_finds within finds
  have ended := finds.ended.1.mp rfl
  obtain rfl := finds.ended.2 rfl
  have whole : source.drop k = gap := by simpa using finds.here
  have none (i : Nat) (past : 0 < i) (bound : i < gap.length) : extra (k + i) = [] :=
    extra_eq_nil between all before here later (by omega) (by omega)
  by_cases filled : gap ≠ [] ∧ extra (k + gap.length) ≠ []
  · obtain ⟨some, more⟩ := filled
    have layout := layout_of_finished between all before here ended later some more whole
    have nothing : source.drop (k + gap.length) = [] := by
      rw [← List.drop_drop, whole, List.drop_length]
    have mark : token = .endOfInput (.behind source (k + gap.length)) := by
      have found := finds.found
      rw [after_layout layout (by rw [whole, List.append_nil]), after_end nothing] at found
      exact (Prod.mk.inj found).1.symm
    have there : (spaced extra source).drop (offset extra k) = gap ++ extra (k + gap.length) := by
      rw [drop_spaced extra within, whole, spacedFrom_finish some none]
    have place : offset extra k + (gap ++ extra (k + gap.length)).length =
        offset extra (k + gap.length) := by
      obtain ⟨less, length⟩ : ∃ less, gap.length = less + 1 :=
        ⟨gap.length - 1, by have := List.length_pos_iff.mpr some; omega⟩
      rw [List.length_append, length, ← Nat.add_assoc k, offset,
        offset_add fun i past bound => none i past (by omega)]
      omega
    have passed : (spaced extra source).drop (offset extra (k + gap.length)) = [] := by
      rw [← place, ← List.drop_drop, there, List.drop_length]
    refine ⟨offset extra (k + gap.length), ?_, fun _ => rfl⟩
    rw [after_layout (layout.append (between.layout.layout _)) (by rw [there, List.append_nil]),
      place, after_end passed, mark]
    rfl
  · have every (i : Nat) (past : 0 < i) (bound : i ≤ gap.length) : extra (k + i) = [] := by
      by_cases last : i = gap.length
      · rw [last]
        by_contra some
        exact filled ⟨List.ne_nil_of_length_pos (by omega), some⟩
      · exact none i past (by omega)
    have there : (spaced extra source).drop (offset extra k) = gap ++ ([] ++ []) := by
      rw [drop_spaced extra within, whole, spacedFrom_eq every]
      simp
    refine ⟨offset extra (k + gap.length), ?_, fun _ => rfl⟩
    rw [finds.stays _ _ _ there (.inl rfl), List.length_nil, Nat.add_zero, offset_add every]

end TokenSource

/-! ### Tapes over both texts -/

namespace Tape

open Lexer (passing)

variable {tokens : List Token} {tape other rest : Tape}

/-- The tapes know the same tokens, beside one another, and their sources go on with the same
characters. -/
structure Along (extra : Nat → List Char) (source : List Char) (tape other : Tape) : Prop where
  read : List.Forall₂ (Token.Beside (Moved extra source)) tape.read other.read
  ahead : List.Forall₂ (Token.Beside (Moved extra source)) tape.ahead other.ahead
  sources : ∃ k place before, k ≤ source.length ∧ tape.source = .text (passing source k before) ∧
    other.source = .text (passing (spaced extra source) place before) ∧
    (∀ told, TokenSource.after (spaced extra source) place told =
      TokenSource.after (spaced extra source) (offset extra k) told) ∧
    Chain source 0 tape.known k

theorem along_start (layout : Spacious extra) (source : String) :
    Along extra source.toList { source := .ofString source }
      { source := .ofString (String.ofList (spaced extra source.toList)) } := by
  refine ⟨.nil, .nil, 0, 0, false, Nat.zero_le _, rfl, ?_, fun told => ?_, .nil 0⟩
  · rw [TokenSource.ofString, Lexer.ofString, String.toList_ofList]
    rfl
  · rw [TokenSource.after_layout (layout.layout 0) rfl, Nat.zero_add]
    rfl

theorem Along.rewind (along : Along extra source tape other) :
    Along extra source tape.rewind other.rewind :=
  ⟨.nil, List.rel_append (List.rel_reverse along.read) along.ahead, along.sources⟩

/-- A token that is taken from the text is taken from the text with more in it too. -/
theorem Along.next {token : Token} {told : Option Bool}
    (between : Between (· ∈ tokens) source extra) {stop : Nat} (chain : Chain source 0 tokens stop)
    (along : Along extra source tape other) (ran : tape.next told = .ok (token, rest))
    (kept : rest.known <+: tokens) : ∃ passed left, other.next told = .ok (passed, left) ∧
      token.Beside (Moved extra source) passed ∧ Along extra source rest left := by
  obtain ⟨read, ahead, _⟩ := tape
  obtain ⟨passed, waiting, _⟩ := other
  obtain ⟨reads, aheads, k, place, before, within, rfl, rfl, same, known⟩ := along
  cases aheads with
  | @cons first second _ _ here later =>
    cases ran
    refine ⟨second, _, rfl, here, .cons here reads, later, k, place, before, within, rfl, rfl, same,
      ?_⟩
    simpa [Tape.known] using known
  | nil =>
    obtain ⟨gap, word, left, first, finds⟩ := TokenSource.exists_finds source k (told.getD before)
    rw [next_text finds.found] at ran
    cases clean : first.error? with
    | some reason =>
      rw [clean] at ran
      cases ran
    | none =>
      rw [clean] at ran
      cases ran
      obtain ⟨here, length, inside⟩ := at_of_finds within finds
      obtain ⟨more, all⟩ : ∃ more, tokens = read.reverse ++ token :: more := by
        obtain ⟨more, same⟩ := kept
        exact ⟨more, by simpa [Tape.known] using same.symm⟩
      rw [Tape.known, List.append_nil] at known
      have behind : Chain source (k + gap.length + token.text.toList.length) more stop := by
        obtain ⟨between, -, rest⟩ := (all ▸ chain).split
        cases rest with
        | cons later there rest =>
          rwa [Position.behind_injective source (there.position.symm.trans here.position)] at rest
      have taken : TokenSource.TakenBeside extra source (k + gap.length)
          (k + (gap.length + word.length)) token
          (TokenSource.after (spaced extra source) (offset extra k) (told.getD before))
          (told.getD before) := by
        by_cases none : word = []
        · subst none
          exact TokenSource.after_spaced_end between all known within behind finds
        · exact TokenSource.after_spaced_word between all known within behind finds clean none
      obtain ⟨further, found, goes⟩ := taken
      have ran := @next_text _ _ told _ passed _ _ ((same _).trans found)
      rw [Token.error?_placed, clean] at ran
      have side := beside_moved here fun i past bound =>
        TokenSource.extra_eq_nil between all known here behind (by omega) (by omega)
      refine ⟨_, _, ran, side, .cons side reads, .nil, _, _, _, inside, rfl, rfl, goes, ?_⟩
      rw [length]
      simpa [Tape.known] using known.append (.cons (Nat.le_add_right k gap.length) here (.nil _))

/-- A fault that is met behind all of the tokens is met in the text with more in it too, for nothing
is put behind it. -/
theorem Along.fault {place : Position} {reason : LexError} {told : Option Bool}
    (between : Between (· ∈ tokens) source extra) (along : Along extra source tape other)
    (failed : tape.next told = .error (.lexical place reason)) (done : tape.known = tokens) :
    ∃ place, other.next told = .error (.lexical place reason) := by
  obtain ⟨read, ahead, _⟩ := tape
  obtain ⟨passed, waiting, _⟩ := other
  obtain ⟨reads, aheads, k, start, before, within, rfl, rfl, same, known⟩ := along
  cases aheads with
  | cons => cases failed
  | nil =>
    have none (i : Nat) (past : k < i) : extra i = [] := by
      by_contra some
      obtain ⟨token, member, ends⟩ := between.behind i some
      obtain ⟨start, there, -, bound⟩ := known.mem (done ▸ member)
      have := there.eq_of_endsAt ends
      omega
    obtain ⟨gap, word, left, token, finds⟩ := TokenSource.exists_finds source k (told.getD before)
    have there : (spaced extra source).drop (offset extra k) = gap ++ (word ++ left) := by
      rw [drop_spaced extra within, spacedFrom_eq fun i past _ => none _ (by omega), finds.here]
    have found := (same _).trans (finds.stays _ _ _ there (.inl rfl))
    rw [next_text finds.found] at failed
    rw [@next_text _ _ told _ passed _ _ found]
    cases fault : token.error? with
    | none =>
      rw [fault] at failed
      cases failed
    | some error =>
      rw [fault] at failed
      cases failed
      rw [Token.error?_placed, fault]
      exact ⟨_, rfl⟩

/-- So tapes over both texts run along one another. -/
theorem coupled (between : Between (· ∈ tokens) source extra) {stop : Nat}
    (chain : Chain source 0 tokens stop) :
    Coupled (Moved extra source) (·.known <+: tokens) (·.known = tokens) (Along extra source) where
  ordered := ordered_moved extra source
  next along ran kept := along.next between chain ran kept
  fault along failed done := along.fault between failed done
  kept ran kept := (known_grows ran).trans kept
  rewind along := along.rewind

end Tape

/-! ### Parses of both texts -/

namespace Parser

variable {parser : Parser α} {text : String}

/-- The parser has taken the token from the text in one of its passes. -/
def Pulls (parser : Parser α) (text : String) (token : Token) : Prop :=
  ∃ pass ∈ parser.passes (.ofString text), token ∈ pass.tape.known

/-- All that was ever taken stands in the text, and the last pass knows it. -/
theorem exists_tokens (parser : Parser α) (text : String) : ∃ tokens stop,
    Chain text.toList 0 tokens stop ∧ (∀ token, parser.Pulls text token ↔ token ∈ tokens) ∧
      Keeps (·.known <+: tokens) (·.known = tokens) (parser.passes (.ofString text)) := by
  obtain ⟨earlier, pass, split⟩ : ∃ earlier pass,
      parser.passes (.ofString text) = earlier ++ [pass] :=
    ⟨_, _, (List.dropLast_append_getLast (List.cons_ne_nil _ _)).symm⟩
  have last : pass ∈ parser.passes (.ofString text) := by simp [split]
  obtain ⟨tape, through, -, rfl⟩ := splits_of_passes
    (fun _ tape => tape.Through text.toList) (Tape.through_start text)
    (fun _ _ _ through _ => through.pass.rewind) split
  obtain ⟨stop, -, -, -, chain⟩ := @Tape.Through.pass _ _ _ parser (splitsAfter earlier) through
  refine ⟨_, stop, chain, fun token => ⟨fun ⟨other, member, known⟩ => ?_, fun known =>
    ⟨_, last, known⟩⟩, fun other member => ⟨known_of_last split member, fun place reason fault => ?_⟩⟩
  · exact (known_of_last split member).subset known
  · -- A pass that ends in a fault is the last one.
    rw [split] at member
    rcases List.mem_append.mp member with before | here
    · obtain ⟨front, back, rfl⟩ := List.append_of_mem before
      obtain ⟨position, again⟩ := retry_of_further
        (split.trans (List.append_assoc front (other :: back) _)) (by simp)
      obtain ⟨position, kind, expected, stops⟩ := Pass.stopsAt_of_retry again
      rw [fault] at stops
      cases stops
    · exact List.mem_singleton.mp here ▸ rfl

/-- Layout behind tokens makes no difference to a parser that is blind to places. -/
theorem parse_spaced [Placed α] (blind : parser.interpretation.Blind)
    (between : Between (parser.Pulls text) text.toList extra) :
    Agree (Moved extra text.toList) (parser.parse (.ofString text))
      (parser.parse (.ofString (String.ofList (spaced extra text.toList)))) := by
  obtain ⟨tokens, stop, chain, pulls, keeps⟩ := parser.exists_tokens text
  rw [show parser.Pulls text = (· ∈ tokens) from funext fun token => propext (pulls token)]
    at between
  refine parse_agree blind (Tape.coupled between chain) ?_
    (Tape.along_start between.layout text) keeps fun _ _ => final_of_text
  have longer := length_spaced extra text.toList
  simpa [TokenSource.remaining, TokenSource.ofString, Lexer.ofString] using longer

end Parser

end JavaFrontend
