import JavaFrontend.Proofs.Token.Locality.Quoted

/-!
How far scanning looks. What a token is depends on its own text and on little of what is behind it:
blanks may come behind any token and behind those that follow it, and whatever stands behind them
makes no difference. What a comment or a blank is depends on its own text and the next character.
-/

namespace JavaFrontend.Lexeme

open Digits

variable {text rest other : List Char} {c : Char} {inTypes : Bool} {found : Kind × TokenValue}

/-- The other text is the rest, or goes on as the rest does up to a blank. -/
def Loose (rest other : List Char) : Prop :=
  other = rest ∨ ∃ common left spaced, rest = common ++ left ∧ other = common ++ ' ' :: spaced

theorem Loose.next (loose : Loose rest other) : Next rest other := by
  obtain rfl | ⟨common, left, spaced, rfl, rfl⟩ := loose
  · exact .inl rfl
  · cases common with
    | nil => exact .inr rfl
    | cons => exact .inl rfl

theorem Loose.append (loose : Loose rest other) (taken : List Char) :
    Loose (taken ++ rest) (taken ++ other) := by
  obtain rfl | ⟨common, left, spaced, rfl, rfl⟩ := loose
  · exact .inl rfl
  · exact .inr ⟨taken ++ common, left, spaced, by simp, by simp⟩

/-! ### Symbols -/

/-- What has no blank in it stands before the first one. -/
theorem begins_before_blank {written front back : List Char}
    (first : written <+: front ++ ' ' :: back) (solid : ' ' ∉ written) : written <+: front := by
  induction front generalizing written with
  | nil =>
    cases written with
    | nil => exact List.nil_prefix
    | cons d written =>
      obtain ⟨rfl, -⟩ := List.cons_prefix_cons.mp first
      exact absurd List.mem_cons_self solid
  | cons c front ih =>
    cases written with
    | nil => exact List.nil_prefix
    | cons d written =>
      obtain ⟨rfl, later⟩ := List.cons_prefix_cons.mp first
      exact List.cons_prefix_cons.mpr
        ⟨rfl, ih later fun member => solid (List.mem_cons_of_mem _ member)⟩

/-- So it begins the text if it begins the other one. -/
theorem Loose.begins_of_begins {written : List Char} (loose : Loose rest other)
    (solid : ' ' ∉ written) (first : written <+: other) : written <+: rest := by
  obtain rfl | ⟨common, left, spaced, rfl, rfl⟩ := loose
  · exact first
  · exact (begins_before_blank first solid).trans (List.prefix_append _ _)

theorem solid_symbols : ∀ entry ∈ symbols, ' ' ∉ entry.1 := by decide

/-- The longest symbol at the head of a text is so whatever may come behind it. -/
theorem symbol?_eq {entry : List Char × Kind}
    (found : symbol? (entry.1 ++ rest) = some entry) (loose : Loose rest other) :
    symbol? (entry.1 ++ other) = some entry := by
  unfold symbol? at found ⊢
  obtain ⟨-, before, after, split, longer⟩ := List.find?_eq_some_iff_append.mp found
  refine List.find?_eq_some_iff_append.mpr ⟨?_, before, after, split, fun entry member => ?_⟩
  · exact List.isPrefixOf_iff_prefix.mpr (List.prefix_append _ _)
  · have solid := solid_symbols entry (by rw [split]; exact List.mem_append_left _ member)
    have none := longer entry member
    rw [Bool.not_eq_true', ← Bool.not_eq_true, List.isPrefixOf_iff_prefix] at none ⊢
    exact fun first => none ((loose.append _).begins_of_begins solid first)

/-- What is found at the head of the text, it is found there too if the text goes on as it may. -/
theorem takes_symbol (ok : (symbol inTypes c text).outcome = .ok found) :
    found.1.isTrivia = false ∧ Takes Loose 0 (symbol inTypes c) text := by
  by_cases single : (inTypes && c == '>') = true
  · have read (other : List Char) : symbol inTypes c other = plain 0 .greater := by
      rw [symbol_eq, if_pos single]
    rw [read] at ok
    cases ok
    exact ⟨rfl, [], text, rfl, by rw [read]; rfl, fun other _ => by rw [read, read]⟩
  have read {other written : List Char} {kind : Kind}
      (longest : symbol? (c :: other) = some (written, kind)) :
      symbol inTypes c other = plain (written.length - 1) kind := by
    rw [symbol_eq, if_neg single, longest]
  cases longest : symbol? (c :: text) with
  | none =>
    rw [symbol_eq, if_neg single, longest] at ok
    cases ok
  | some entry =>
    obtain ⟨written, kind⟩ := entry
    rw [read longest] at ok
    cases ok
    obtain ⟨listed, spelled, rest, whole⟩ := mem_fixed_of_symbol? longest
    have all : ∀ kind ∈ Kind.fixed, kind.text.toList ≠ [] ∧ kind.isTrivia = false := by
      decide
    obtain ⟨first, more, rfl⟩ := List.exists_cons_of_ne_nil (spelled ▸ (all kind listed).1)
    rw [List.cons_append, List.cons.injEq] at whole
    obtain ⟨rfl, rfl⟩ := whole
    refine ⟨(all kind listed).2, more, rest, rfl, ?_, fun other loose => ?_⟩
    · rw [read longest, Nat.zero_add]
      rfl
    · have same : symbol? (first :: (more ++ other)) = _ :=
        @symbol?_eq rest other (first :: more, kind) longest loose
      rw [read same, read longest]

/-! ### Comments -/

/-- The other text begins with the same character, or ends as the rest does. -/
def SameHead (rest other : List Char) : Prop := other.head? = rest.head?

theorem commentRest_cons (open_ : c = '*' → text.head? ≠ some '/') :
    commentRest (c :: text) = ((commentRest text).1 + 1, (commentRest text).2) := by
  rw [commentRest]
  rintro left rfl rfl
  exact open_ rfl rfl

/-- A comment with its end is the same whatever stands behind it. -/
theorem exists_closed {length : Nat} (closed : commentRest text = (length, true)) :
    ∃ taken rest, text = taken ++ rest ∧ taken ≠ [] ∧ length = taken.length ∧
      ∀ other, commentRest (taken ++ other) = (length, true) := by
  induction text generalizing length with
  | nil => cases closed
  | cons c text ih =>
    by_cases ends : c = '*' ∧ text.head? = some '/'
    · obtain ⟨rfl, slash⟩ := ends
      obtain ⟨rest, rfl⟩ := List.head?_eq_some_iff.mp slash
      cases closed
      exact ⟨['*', '/'], rest, rfl, List.cons_ne_nil _ _, rfl, fun _ => rfl⟩
    · rw [not_and] at ends
      rw [commentRest_cons ends] at closed
      obtain ⟨rfl, ended⟩ := Prod.mk.inj closed
      obtain ⟨taken, rest, rfl, some, same, read⟩ := ih (Prod.ext rfl ended)
      refine ⟨c :: taken, rest, rfl, List.cons_ne_nil _ _, congrArg Nat.succ same,
        fun other => ?_⟩
      rw [List.cons_append, commentRest_cons, read]
      intro star
      rw [head?_append some]
      exact ends star

theorem takes_comment {lexeme : Lexeme} (comment : comment? text = some lexeme)
    (ok : lexeme.outcome = .ok found) : found.1.isTrivia ∧
      ∃ taken rest, text = taken ++ rest ∧ lexeme.extra = taken.length ∧
        ∀ other, SameHead rest other → comment? (taken ++ other) = some lexeme := by
  unfold comment? at comment
  split at comment
  · next rest =>
    cases comment
    obtain ⟨run, rest, rfl, -, stops, same⟩ := exists_run (!isLineEnd ·) rest
    cases ok
    refine ⟨rfl, '/' :: run, rest, rfl, ?_, fun other head => ?_⟩
    · rw [same rest stops, List.length_cons, Nat.add_comm]
      rfl
    · rw [List.cons_append, comment?, same rest stops,
        same other (takeWhile_eq_nil_of_head? head stops)]
  · next rest =>
    cases closed : commentRest rest with
    | mk length ended =>
      rw [closed] at comment
      cases ended with
      | false =>
        cases comment
        cases ok
      | true =>
        cases comment
        cases ok
        obtain ⟨taken, rest, rfl, -, rfl, read⟩ := exists_closed closed
        refine ⟨rfl, '*' :: taken, rest, rfl, Nat.add_comm .., fun other _ => ?_⟩
        rw [List.cons_append, comment?, read]
  · cases comment

/-! ### All lexemes -/

/-- What may come behind a significant token instead of the rest: as much of it as there is before
a blank; but where the digits of an integer stand before two points, not between these. -/
def Follows (kind : Kind) (taken rest other : List Char) : Prop :=
  Loose rest other ∧ (kind = .intLiteral → IsDigits taken → Pointed rest other)

/-- What is found behind the character is found in any other text too that begins as this one does
and goes on as it may. -/
def Stays (scan : List Char → Lexeme) (c : Char) (text : List Char) (kind : Kind) : Prop :=
  ∃ taken rest, text = taken ++ rest ∧ (scan text).extra = taken.length ∧
    ∀ other, (if kind.isTrivia then SameHead rest other else
      Follows kind (c :: taken) rest other) → scan (taken ++ other) = scan text

section Stays

variable {scan : List Char → Lexeme} {kind : Kind}

theorem stays_trivia (trivia : kind.isTrivia) (takes : Takes SameHead 0 scan text) :
    Stays scan c text kind := by
  obtain ⟨taken, rest, whole, length, same⟩ := takes
  refine ⟨taken, rest, whole, by simpa using length, fun other fits => same other ?_⟩
  simpa [trivia] using fits

theorem stays_significant (significant : kind.isTrivia = false) (takes : Takes Loose 0 scan text) :
    Stays scan c text kind := by
  obtain ⟨taken, rest, whole, length, same⟩ := takes
  refine ⟨taken, rest, whole, by simpa using length, fun other fits => same other ?_⟩
  rw [significant] at fits
  exact fits.1

theorem Takes.loose (takes : Takes Next 0 scan text) : Takes Loose 0 scan text := by
  obtain ⟨taken, rest, whole, length, same⟩ := takes
  exact ⟨taken, rest, whole, length, fun other loose => same other loose.next⟩

theorem Closed.loose (closed : Closed scan 0 text) : Takes Loose 0 scan text := by
  obtain ⟨taken, rest, whole, -, length, same⟩ := closed
  exact ⟨taken, rest, whole, length, fun other _ => same other⟩

/-- Literals are no trivia. -/
theorem Valued.significant {lexeme : Lexeme} (valued : lexeme.Valued)
    (ok : lexeme.outcome = .ok found) : found.1.isTrivia = false := by
  cases valued with
  | literal extra same =>
    cases ok
    rename_i value
    cases value <;> cases same <;> rfl
  | fault => cases ok

end Stays

/-- A run of characters that is scanned as a whole. -/
theorem takes_run {scan : List Char → Lexeme} {allowed : List Char → List Char → Prop}
    (p : Char → Bool) (kind : List Char → Kind)
    (read : ∀ other, scan other = plain (other.takeWhile p).length (kind (other.takeWhile p)))
    (stop : ∀ rest other : List Char, allowed rest other → rest.takeWhile p = [] →
      other.takeWhile p = []) : Takes allowed 0 scan text := by
  obtain ⟨run, rest, rfl, -, stops, same⟩ := exists_run p text
  refine ⟨run, rest, rfl, ?_, fun other fits => ?_⟩
  · rw [read, same rest stops, Nat.zero_add]
    rfl
  · rw [read, read, same rest stops, same other (stop rest other fits stops)]

theorem takes_carriageReturn : Takes SameHead 0 (fun text =>
    if text.head? == some '\n' then plain 1 .carriageReturnLineFeed
    else plain 0 .carriageReturn) text := by
  by_cases feed : text.head? = some '\n'
  · obtain ⟨rest, rfl⟩ := List.head?_eq_some_iff.mp feed
    exact ⟨['\n'], rest, rfl, rfl, fun _ _ => rfl⟩
  · refine ⟨[], text, rfl, by simp [feed, plain], fun other same => ?_⟩
    simp [show other.head? = text.head? from same]

theorem Next.any_eq_false {p : Char → Bool} (next : Next rest other) (blank : p ' ' = false)
    (none : rest.head?.any p = false) : other.head?.any p = false := by
  rcases next with same | space
  · rwa [same]
  · rw [space]
    exact blank

/-- A point is the beginning of a number if a digit stands behind it. -/
def scanPoint (inTypes : Bool) (text : List Char) : Lexeme :=
  if text.head?.any (isDigit 10) then fractionPart 0 [] text else symbol inTypes '.' text

theorem extra_pos_fractionPart {d : Char} (digit : isDigit 10 d) (whole : List Char) :
    0 < (fractionPart 0 whole (d :: rest)).extra := by
  have some : 0 < 0 + (digitRun 10 (d :: rest)).length := by simp [digitRun, digit]
  unfold fractionPart
  dsimp only
  split
  · exact some
  · exact Nat.lt_of_lt_of_le some (takes_exponentPart ..).le

theorem stays_point (ok : (scanPoint inTypes text).outcome = .ok found) :
    Stays (scanPoint inTypes) c text found.1 := by
  by_cases digit : text.head?.any (isDigit 10)
  · obtain ⟨d, rest, rfl⟩ : ∃ d rest, text = d :: rest :=
      List.exists_cons_of_ne_nil fun none => by
        rw [none] at digit
        cases digit
    have read (other : List Char) : scanPoint inTypes (d :: other) = fractionPart 0 [] (d :: other) :=
      if_pos digit
    rw [read] at ok
    refine stays_significant ((valued_fractionPart ..).significant ok) ?_
    obtain ⟨taken, left, whole, length, same⟩ := takes_fractionPart 0 [] (d :: rest)
    cases taken with
    | nil => exact absurd length (Nat.ne_of_gt (extra_pos_fractionPart digit []))
    | cons first taken =>
      rw [List.cons_append, List.cons.injEq] at whole
      obtain ⟨rfl, rfl⟩ := whole
      refine ⟨d :: taken, left, rfl, by rw [read, length], fun other loose => ?_⟩
      rw [List.cons_append, read, read]
      exact same other loose.next
  · have none := eq_false_of_ne_true digit
    have read (other : List Char) (none : other.head?.any (isDigit 10) = false) :
        scanPoint inTypes other = symbol inTypes '.' other := by simp [scanPoint, none]
    rw [read text none] at ok
    obtain ⟨significant, taken, rest, rfl, length, same⟩ := takes_symbol ok
    refine stays_significant significant ⟨taken, rest, rfl, by rw [read _ none, length],
      fun other loose => ?_⟩
    rw [read _ none, read _ ((loose.append taken).next.any_eq_false (isDigit_blank 10) none)]
    exact same other loose

theorem comment?_eq_none_iff : comment? text = none ↔ ∀ c ∈ text.head?, c ∉ ['/', '*'] := by
  unfold comment?
  split
  · simp
  · next rest => cases commentRest rest with | mk length ended => cases ended <;> simp
  · next slash star =>
    cases text with
    | nil => simp
    | cons c text =>
      have apart : c ≠ '/' ∧ c ≠ '*' := ⟨fun same => slash text (by rw [same]), fun same => star text (by rw [same])⟩
      simpa using apart

theorem stays_slash
    (ok : ((comment? text).getD (symbol inTypes c text)).outcome = .ok found) :
    Stays (fun text => (comment? text).getD (symbol inTypes c text)) c text found.1 := by
  cases comment : comment? text with
  | some lexeme =>
    rw [comment] at ok
    obtain ⟨trivia, taken, rest, rfl, length, same⟩ := takes_comment comment ok
    refine stays_trivia trivia ⟨taken, rest, rfl, by simp [comment, length], fun other head => ?_⟩
    simp [comment, same other head]
  | none =>
    rw [comment] at ok
    obtain ⟨significant, taken, rest, rfl, length, same⟩ := takes_symbol ok
    refine stays_significant significant ⟨taken, rest, rfl, by simp [comment, length],
      fun other loose => ?_⟩
    have still := comment?_eq_none_iff.mpr
      ((loose.append taken).next.not_mem (by decide) (comment?_eq_none_iff.mp comment))
    simp [comment, still, same other loose]

theorem isTrivia_wordKind (word : String) : (wordKind word).isTrivia = false := by
  have all : ∀ kind ∈ Kind.fixed, kind.isTrivia = false := by decide
  unfold wordKind
  split
  · next kind known =>
    split
    · exact all kind (List.mem_of_find?_eq_some known)
    · rfl
  · rfl

/-- What is found at the head of a text that is no fault stays the same if what comes behind it is
replaced by something that may follow it. -/
theorem scan_stays (ok : (scan inTypes c text).outcome = .ok found) :
    Stays (scan inTypes c) c text found.1 := by
  have scansAs := scansAs inTypes c
  generalize scan inTypes c = scan at ok scansAs ⊢
  cases scansAs with
  | blank =>
    cases ok
    exact stays_trivia rfl (takes_run isBlank (fun _ => .whitespace) (fun _ => rfl)
      fun rest other head stops => takeWhile_eq_nil_of_head? head stops)
  | single trivia =>
    cases ok
    exact stays_trivia trivia ⟨[], text, rfl, rfl, fun _ _ => rfl⟩
  | carriageReturn =>
    refine stays_trivia ?_ takes_carriageReturn
    dsimp only at ok
    split at ok <;> cases ok <;> rfl
  | character =>
    exact stays_significant ((valued_charLiteral text).significant ok) (closed_charLiteral ok).loose
  | string =>
    exact stays_significant ((valued_stringRest 0 [] text).significant ok)
      (closed_stringRest ok).loose
  | number digit =>
    obtain ⟨taken, rest, rfl, length, same⟩ := takes_numeric ok
    refine ⟨taken, rest, rfl, length, fun other follows => ?_⟩
    rw [(valued_numeric c _).significant ok] at follows
    exact same other follows.1.next fun int digits =>
      follows.2 int (List.forall_mem_cons.mpr ⟨.inr digit, digits⟩)
  | word =>
    cases ok
    have blank : isIdentifierPart ' ' = false := by decide +kernel
    exact stays_significant (isTrivia_wordKind _) (takes_run isIdentifierPart
      (fun more => wordKind (String.ofList (c :: more))) (fun _ => rfl)
      fun rest other loose stops => loose.next.takeWhile_eq_nil blank stops)
  | point point =>
    subst point
    exact stays_point ok
  | slash => exact stays_slash ok
  | symbol =>
    obtain ⟨significant, takes⟩ := takes_symbol ok
    exact stays_significant significant takes

end JavaFrontend.Lexeme
