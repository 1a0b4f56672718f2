import JavaFrontend.Proofs.Token.Spacing

/-!
Texts that are put together from words and marks, as types are. Each word is handed out as a token
if no more of a word stands behind it, and each mark if it does not begin a longer one. So the
tokens of such a text are those of its parts (`Lexes`).
-/

namespace JavaFrontend

open Lexeme (isIdentifierStart isIdentifierPart wordKind scan symbols symbol? plain isBlank)

/-! ### Words -/

namespace Lexeme

variable {c : Char} {text more rest : List Char} {inTypes : Bool}

/-- Blanks, ends of lines, quotes and marks, with which no word begins. -/
def specials : List Char :=
  [' ', '\t', '\x0c', '\n', '\r', '\x1a', '\'', '"', '.', '<', '=', '?']

theorem start_of_special (special : c ∈ specials) : isIdentifierStart c = false := by
  have all : specials.all fun c => !isIdentifierStart c := by decide +kernel
  simpa using List.all_eq_true.mp all c special

theorem ne_of_start (start : isIdentifierStart c) {d : Char} (special : d ∈ specials) : c ≠ d := by
  rintro rfl
  rw [start_of_special special] at start
  cases start

theorem isBlank_of_start (start : isIdentifierStart c) : isBlank c = false := by
  simp [isBlank, ne_of_start start (d := ' ') (by decide),
    ne_of_start start (d := '\t') (by decide), ne_of_start start (d := '\x0c') (by decide)]

private theorem part_of_decimal : ∀ n < 10, isIdentifierStart (Char.ofNat (48 + n)) = false ∧
    isIdentifierPart (Char.ofNat (48 + n)) := by
  decide +kernel

/-- A digit begins no word, but a word goes on with it. -/
theorem part_of_isDigit (digit : Digits.isDigit 10 c) :
    isIdentifierStart c = false ∧ isIdentifierPart c := by
  have none (n : Nat) : ((some (n + 10)).filter (· < 10)).isSome = false := by
    rw [Option.filter_some, if_neg (by simp)]
    rfl
  have decimal : '0' ≤ c ∧ c ≤ '9' := by
    by_contra other
    rw [Digits.isDigit, Digits.value?, if_neg other] at digit
    split at digit
    · rw [none] at digit
      cases digit
    · split at digit
      · rw [none] at digit
        cases digit
      · cases digit
  have low : 48 ≤ c.toNat := decimal.1
  have high : c.toNat ≤ 57 := decimal.2
  have same : c = Char.ofNat (48 + (c.toNat - 48)) := by
    rw [Nat.add_sub_of_le low, Char.ofNat_toNat]
  rw [same]
  exact part_of_decimal _ (by omega)

/-- A word is scanned up to where no more of it stands. -/
theorem scan_word (start : isIdentifierStart c) (part : ∀ d ∈ more, isIdentifierPart d)
    (stops : ∀ d ∈ rest.head?, isIdentifierPart d = false) :
    scan inTypes c (more ++ rest) = plain more.length (wordKind (String.ofList (c :: more))) := by
  have other {d : Char} (special : d ∈ specials) : c ≠ d := ne_of_start start special
  have digit : Digits.isDigit 10 c = false := by
    cases digit : Digits.isDigit 10 c with
    | false => rfl
    | true =>
      rw [(part_of_isDigit digit).1] at start
      cases start
  have run : (more ++ rest).takeWhile isIdentifierPart = more := takeWhile_run part stops
  rw [scan, if_neg (by simp [isBlank_of_start start]), if_neg (other (by decide)),
    if_neg (other (by decide)), if_neg (other (by decide)), if_neg (other (by decide)),
    if_neg (other (by decide)), if_neg (by simp [digit]), if_pos start]
  dsimp only
  rw [run]

/-! ### Marks -/

/-- Marks, with what may not come behind them. -/
def marks : List (Char × Kind × List Char) := [
  ('.', .dot, ['.']), ('<', .less, ['<', '=']), ('?', .question, []), (',', .comma, []),
  ('[', .leftBracket, []), (']', .rightBracket, [])]

/-- Of the symbols that begin with a mark and do not go on as it may not, it is the first. -/
private theorem find_mark : ∀ mark ∈ marks, symbols.find? (fun entry =>
    entry.1.head? == some mark.1 && !entry.1.tail.head?.any mark.2.2.contains) =
      some ([mark.1], mark.2.1) := by
  decide

private theorem symbols_ne_nil : ∀ entry ∈ symbols, entry.1 ≠ [] := by decide

theorem symbol?_mark {kind : Kind} {others : List Char} (mark : (c, kind, others) ∈ marks)
    (next : ∀ d ∈ text.head?, d ∉ others) : symbol? (c :: text) = some ([c], kind) := by
  have found := find_mark _ mark
  obtain ⟨-, before, after, split, longer⟩ := List.find?_eq_some_iff_append.mp found
  refine List.find?_eq_some_iff_append.mpr ⟨by simp, before, after, split, fun entry member => ?_⟩
  have none := longer entry member
  rw [Bool.not_eq_true', ← Bool.not_eq_true] at none ⊢
  refine fun begins => none ?_
  obtain ⟨written, kind⟩ := entry
  rw [List.isPrefixOf_iff_prefix] at begins
  cases written with
  | nil => exact absurd rfl (symbols_ne_nil _ (split ▸ List.mem_append_left _ member))
  | cons d written =>
    obtain ⟨rfl, more⟩ := List.cons_prefix_cons.mp begins
    cases written with
    | nil => simp
    | cons e written =>
      obtain ⟨rest, rfl⟩ := more
      simpa using next e rfl

private theorem mem_firsts_of_mark : ∀ mark ∈ marks, mark.1 ∈ firsts ∧ mark.1 ∉ ['/', '>'] := by
  decide

/-- A mark is scanned alone if none of the characters stands behind it that it may go on with. -/
theorem scan_mark {kind : Kind} {others : List Char} (mark : (c, kind, others) ∈ marks)
    (next : ∀ d ∈ text.head?, d ∉ others ∧ Digits.isDigit 10 d = false) (inTypes : Bool) :
    scan inTypes c text = plain 0 kind := by
  obtain ⟨first, special⟩ := mem_firsts_of_mark _ mark
  have other {d : Char} (member : d ∈ ['/', '>']) : c ≠ d := fun same => special (same ▸ member)
  have none : text.head?.any (Digits.isDigit 10) = false := by
    cases text with
    | nil => rfl
    | cons d text => exact (next d rfl).2
  have slash : c ≠ '/' := other (by simp)
  have angle : c ≠ '>' := other (by simp)
  rw [scan_eq_symbol first (fun same => absurd same slash) fun _ => none, symbol_eq,
    if_neg (by simp [angle]), symbol?_mark mark fun d member => (next d member).1]
  rfl

/-- Where type arguments may close, so is each `>`. -/
theorem scan_greater (text : List Char) : scan true '>' text = plain 0 .greater := by
  rw [scan_eq_symbol (by decide) (fun slash => absurd slash (by decide))
    fun dot => absurd dot (by decide)]
  rfl

end Lexeme

/-! ### Texts of parts -/

namespace Lexer

variable {c : Char} {more rest : List Char} {position : Position} {inTypes : Bool} {kind : Kind}

/-- What is scanned as a token is the first to come. -/
theorem pending_of_scan (position : Position)
    (found : scan inTypes c (more ++ rest) = plain more.length kind)
    (significant : kind.isTrivia = false) : ∃ behind,
      (⟨c :: (more ++ rest), position, inTypes⟩ : Lexer).pending =
        { kind, text := String.ofList (c :: more), position : Token } ::
          (⟨rest, behind, inTypes⟩ : Lexer).pending := by
  have next : (⟨c :: (more ++ rest), position, inTypes⟩ : Lexer).next =
      ({ kind, text := String.ofList (c :: more), position : Token },
        ⟨rest, position.advance (c :: more) rest, inTypes⟩) := by
    unfold Lexer.next
    dsimp only
    rw [found]
    simp [plain]
  refine ⟨position.advance (c :: more) rest, ?_⟩
  rw [pending_cons (List.cons_ne_nil _ _) (by rw [next]; exact significant), next]

theorem pending_of_single (position : Position) (found : scan inTypes c rest = plain 0 kind)
    (significant : kind.isTrivia = false) : ∃ (token : Token) (behind : Position),
      token.kind = kind ∧ (⟨c :: rest, position, inTypes⟩ : Lexer).pending =
        token :: (⟨rest, behind, inTypes⟩ : Lexer).pending := by
  have whole : scan inTypes c ([] ++ rest) = plain ([] : List Char).length kind := found
  obtain ⟨behind, same⟩ := pending_of_scan position whole significant
  exact ⟨_, behind, rfl, same⟩

/-- A blank in front of something else is passed. -/
theorem pending_blank (position : Position) (stops : ∀ d ∈ rest.head?, isBlank d = false) :
    ∃ behind,
    (⟨' ' :: rest, position, inTypes⟩ : Lexer).pending =
      (⟨rest, behind, inTypes⟩ : Lexer).pending := by
  have run : rest.takeWhile isBlank = [] := by
    cases rest with
    | nil => rfl
    | cons d rest => simp [stops d rfl]
  have next : (⟨' ' :: rest, position, inTypes⟩ : Lexer).next =
      ({ kind := .whitespace, text := " ", position : Token },
        ⟨rest, position.advance [' '] rest, inTypes⟩) := by
    unfold Lexer.next
    dsimp only
    rw [scan, if_pos (by decide), run]
    rfl
  refine ⟨position.advance [' '] rest, ?_⟩
  rw [pending_trivia (List.cons_ne_nil _ _) (by rw [next]; rfl), next]

end Lexer

/-- Nothing stands there that goes on with a word. -/
def Stops (rest : List Char) : Prop := ∀ d ∈ rest.head?, isIdentifierPart d = false

/-- Whatever stands behind the text that does not go on with a word, the text is handed out as such
tokens where type arguments may close; and there is no `=` in it. -/
structure Lexes (text : List Char) (Good : List Token → Prop) : Prop where
  plain : '=' ∉ text
  lexed : ∀ (position : Position) (rest : List Char), Stops rest → ∃ tokens behind, Good tokens ∧
    (⟨text ++ rest, position, true⟩ : Lexer).pending =
      tokens ++ (⟨rest, behind, true⟩ : Lexer).pending

/-- The text begins with a word or with `?`. -/
def Opens (text : List Char) : Prop := ∃ c ∈ text.head?, isIdentifierStart c ∨ c = '?'

/-- None of the characters can stand behind the text's front, and no digit. -/
def Parts (others more : List Char) : Prop := ∀ rest, Stops rest → ∀ d ∈ (more ++ rest).head?,
  d ∉ others ∧ Digits.isDigit 10 d = false

section Texts

variable {c : Char} {text more others : List Char} {kind : Kind} {Good Good' : List Token → Prop}

theorem Stops.append (stops : Stops more) {rest : List Char} (behind : Stops rest) :
    Stops (more ++ rest) := by
  cases more with
  | nil => exact behind
  | cons d more => exact stops

theorem not_isDigit_of_part (part : isIdentifierPart c = false) : Digits.isDigit 10 c = false := by
  cases digit : Digits.isDigit 10 c with
  | false => rfl
  | true =>
    rw [(Lexeme.part_of_isDigit digit).2] at part
    cases part

theorem Stops.parts (stops : Stops more) : Parts [] more :=
  fun _ behind d member => ⟨List.not_mem_nil, not_isDigit_of_part (stops.append behind d member)⟩

theorem Opens.append (opens : Opens text) (more : List Char) : Opens (text ++ more) := by
  obtain ⟨c, first, begins⟩ := opens
  cases text with
  | nil => cases first
  | cons d text => exact ⟨c, first, begins⟩

theorem Opens.parts (opens : Opens more) (few : others ⊆ ['.', '<', '=']) : Parts others more := by
  intro rest _ d member
  obtain ⟨c, first, begins⟩ := opens.append rest
  obtain rfl := Option.mem_unique member first
  constructor
  · intro other
    rcases begins with start | rfl
    · have special : ['.', '<', '='] ⊆ Lexeme.specials := by decide
      rw [Lexeme.start_of_special (special (few other))] at start
      cases start
    · exact absurd (few other) (by decide)
  · rcases begins with start | rfl
    · cases digit : Digits.isDigit 10 d with
      | false => rfl
      | true =>
        rw [(Lexeme.part_of_isDigit digit).1] at start
        cases start
    · decide

namespace Lexes

theorem imp (lexes : Lexes text Good) (further : ∀ tokens, Good tokens → Good' tokens) :
    Lexes text Good' where
  plain := lexes.plain
  lexed position rest stops := by
    obtain ⟨tokens, behind, good, same⟩ := lexes.lexed position rest stops
    exact ⟨tokens, behind, further tokens good, same⟩

theorem nil : Lexes [] (· = []) := ⟨List.not_mem_nil, fun position _ _ => ⟨[], position, rfl, rfl⟩⟩

theorem append (first : Lexes text Good) (second : Lexes more Good') (stops : Stops more) :
    Lexes (text ++ more) fun tokens =>
      ∃ front back, tokens = front ++ back ∧ Good front ∧ Good' back where
  plain member := (List.mem_append.mp member).elim first.plain second.plain
  lexed position rest behind := by
    obtain ⟨front, place, good, before⟩ := first.lexed position (more ++ rest) (stops.append behind)
    obtain ⟨back, last, good', after⟩ := second.lexed place rest behind
    exact ⟨front ++ back, last, ⟨front, back, rfl, good, good'⟩, by
      rw [List.append_assoc, before, after, List.append_assoc]⟩

theorem word (start : isIdentifierStart c) (part : ∀ d ∈ more, isIdentifierPart d) :
    Lexes (c :: more) fun tokens => ∃ token : Token, tokens = [token] ∧
      token.kind = wordKind (String.ofList (c :: more)) ∧
      token.text = String.ofList (c :: more) where
  plain member := by
    have other : isIdentifierPart '=' = false := by decide +kernel
    rcases List.mem_cons.mp member with rfl | member
    · rw [Lexeme.start_of_special (by decide)] at start
      cases start
    · have inside := part _ member
      rw [other] at inside
      cases inside
  lexed position rest stops := by
    obtain ⟨behind, same⟩ := Lexer.pending_of_scan position
      (Lexeme.scan_word start part stops) (Lexeme.isTrivia_wordKind _)
    exact ⟨_, behind, ⟨_, rfl, rfl, rfl⟩, same⟩

/-- A mark in front of something that it does not go on with. -/
theorem mark (known : (c, kind, others) ∈ Lexeme.marks) (parts : Parts others more)
    (lexes : Lexes more Good) : Lexes (c :: more) fun tokens =>
      ∃ token back, tokens = token :: back ∧ token.kind = kind ∧ Good back where
  plain member := by
    have apart : ∀ mark ∈ Lexeme.marks, mark.1 ≠ '=' ∧ mark.2.1.isTrivia = false := by decide
    rcases List.mem_cons.mp member with same | member
    · exact (apart _ known).1 same.symm
    · exact lexes.plain member
  lexed position rest stops := by
    have apart : ∀ mark ∈ Lexeme.marks, mark.2.1.isTrivia = false := by decide
    obtain ⟨token, next, isMark, same⟩ := Lexer.pending_of_single position
      (Lexeme.scan_mark known (parts rest stops) true) (apart _ known)
    obtain ⟨back, behind, good, others⟩ := lexes.lexed next rest stops
    exact ⟨_, behind, ⟨token, back, rfl, isMark, good⟩, same.trans (congrArg _ others)⟩

theorem greater (lexes : Lexes more Good) : Lexes ('>' :: more) fun tokens =>
    ∃ token back, tokens = token :: back ∧ token.kind = .greater ∧ Good back where
  plain := by simpa using lexes.plain
  lexed position rest stops := by
    obtain ⟨token, next, isAngle, same⟩ := Lexer.pending_of_single position
      (Lexeme.scan_greater (more ++ rest)) rfl
    obtain ⟨back, behind, good, others⟩ := lexes.lexed next rest stops
    exact ⟨_, behind, ⟨token, back, rfl, isAngle, good⟩, same.trans (congrArg _ others)⟩

/-- A blank in front of a word or of `?`. -/
theorem blank (opens : Opens more) (lexes : Lexes more Good) : Lexes (' ' :: more) Good where
  plain := by simpa using lexes.plain
  lexed position rest stops := by
    have front : ∀ d ∈ (more ++ rest).head?, isBlank d = false := by
      intro d member
      obtain ⟨c, first, begins⟩ := opens.append rest
      obtain rfl := Option.mem_unique member first
      rcases begins with start | rfl
      · exact Lexeme.isBlank_of_start start
      · decide
    obtain ⟨next, same⟩ := Lexer.pending_blank position front
    obtain ⟨tokens, behind, good, others⟩ := lexes.lexed next rest stops
    exact ⟨tokens, behind, good, same.trans others⟩

end Lexes

end Texts

end JavaFrontend
