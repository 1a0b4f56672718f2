import JavaFrontend.Proofs.Number.Digits
import JavaFrontend.Proofs.Token.Lexing
import JavaFrontend.Proofs.Token.Locality.Quoted

/-!
Character and string literals as they are written. Each character may be written as itself or as an
escape, whatever stands behind it, and what the lexer decodes of a literal is the characters that
were encoded in it (`Lexer.next_of_encodings`).
-/

namespace JavaFrontend

namespace Lexeme

open Digits

/-- The characters that have an escape of one letter, with the letter. -/
def letterEscapes : List (Char × Char) := [
  ('\x08', 'b'), ('\t', 't'), ('\n', 'n'), ('\x0c', 'f'), ('\r', 'r'), ('"', '"'), ('\'', '\''),
  ('\\', '\\')]

/-- The ways to write a character in a literal that ends with the quote. -/
inductive Encodes (quote c : Char) : List Char → Prop where
  | itself (plain : c ∉ ['\\', '\n', '\r', quote]) : Encodes quote c [c]
  | letter {letter : Char} (listed : (c, letter) ∈ letterEscapes) : Encodes quote c ['\\', letter]
  | octal {written : List Char} {digits : List Nat} (writes : Writes 8 written digits)
      (three : digits.length = 3) (denotes : Nat.ofDigits 8 digits.reverse = c.toNat)
      (small : c.toNat ≤ 255) : Encodes quote c ('\\' :: written)
  | unicode {more : Nat} {written : List Char} {digits : List Nat} (writes : Writes 16 written digits)
      (four : digits.length = 4) (denotes : Nat.ofDigits 16 digits.reverse = c.toNat) :
      Encodes quote c ('\\' :: 'u' :: (List.replicate more 'u' ++ written))

variable {quote c : Char} {written rest : List Char} {digits : List Nat} {extra : Nat}
  {value : List Char}

/-! ### Escapes -/

theorem escape_letter {letter : Char} (listed : (c, letter) ∈ letterEscapes) (rest : List Char) :
    escape (letter :: rest) = (1, .ok c) := by
  have all : letterEscapes.all fun entry => letterEscape? entry.2 == some entry.1 := by decide
  have same : letterEscape? letter = some c := eq_of_beq (List.all_eq_true.mp all _ listed)
  rw [escape, same]

/-- Three octal digits of a small number are all taken, and no further one. -/
theorem escape_octal (writes : Writes 8 written digits) (three : digits.length = 3)
    (denotes : Nat.ofDigits 8 digits.reverse = c.toNat) (small : c.toNat ≤ 255) (rest : List Char) :
    escape (written ++ rest) = (written.length, .ok c) := by
  have number := number_of_writes (by decide) writes
  cases writes with
  | nil => cases three
  | @cons first digit more others spelled behind =>
    have two : more.length = 2 := by rw [behind.length_eq]; simpa using three
    -- Only behind a digit up to three are two more read.
    have low : digit ≤ 3 := by
      rw [List.reverse_cons, Nat.ofDigits_append, Nat.ofDigits_singleton, List.length_reverse,
        ← behind.length_eq, two] at denotes
      omega
    have all : (List.range 8).all fun digit => (spellings digit).all fun c =>
        letterEscape? c == none && (3 < digit || c ≤ '3') := by decide
    have here := List.all_eq_true.mp (List.all_eq_true.mp all digit (List.mem_range.mpr spelled.1))
      first spelled.2
    obtain ⟨letter, few⟩ : letterEscape? first = none ∧ first ≤ '3' := by
      simpa [Nat.not_lt_of_le low] using here
    have octal := isDigit_of_spelling (by decide) spelled.1 spelled.2
    have taken : ((more ++ rest).take 2).takeWhile (isDigit 8) = more := by
      rw [List.take_left' two, List.takeWhile_eq_self_iff.mpr]
      exact isDigit_of_writes (by decide) behind
    rw [List.cons_append, escape]
    simp only [letter, octal, few, if_true, taken, number, denotes, Char.ofNat_toNat,
      List.length_cons, Nat.add_comm]

theorem charOf?_toNat (c : Char) : charOf? c.toNat = some c := by
  have valid : c.toNat.isValidChar := c.valid
  rw [charOf?, dif_pos valid]
  rfl

/-- Four hexadecimal digits are all taken behind any number of letters `u`. -/
theorem escape_unicode {more : Nat} (writes : Writes 16 written digits) (four : digits.length = 4)
    (denotes : Nat.ofDigits 16 digits.reverse = c.toNat) (rest : List Char) :
    escape ('u' :: (List.replicate more 'u' ++ written ++ rest)) =
      (1 + (more + written.length), .ok c) := by
  have isDigits := isDigit_of_writes (by decide) writes
  have length : written.length = 4 := by rw [writes.length_eq, four]
  -- The letter is no hexadecimal digit, so the run of letters ends before the digits.
  have stops : (written ++ rest).takeWhile (· == 'u') = [] := by
    cases writes with
    | nil => cases four
    | cons spelled =>
      refine List.takeWhile_cons_of_neg fun mark => ?_
      have digit := isDigit_of_spelling (by decide) spelled.1 spelled.2
      rw [eq_of_beq mark] at digit
      cases digit
  have marks : (List.replicate more 'u' ++ (written ++ rest)).takeWhile (· == 'u') =
      List.replicate more 'u' := by
    rw [List.takeWhile_append_of_pos (by simp), stops, List.append_nil]
  have decoded : unicodeEscape (List.replicate more 'u' ++ (written ++ rest)) =
      (more + written.length, .ok c) := by
    unfold unicodeEscape
    simp only [marks, List.length_replicate, List.drop_left' List.length_replicate,
      List.take_left' length, List.takeWhile_eq_self_iff.mpr isDigits, length, if_true,
      number_of_writes (Nat.le_refl 16) writes, denotes, charOf?_toNat, Option.elim_some]
  rw [List.append_assoc, escape]
  simp only [show letterEscape? 'u' = none from rfl, show isDigit 8 'u' = false from rfl, decoded,
    if_true, if_false, Bool.false_eq_true]

/-- What is written for a character is the character itself or an escape that stands for it and
ends where it does, whatever comes behind it. -/
theorem plain_or_escape (encodes : Encodes quote c written) :
    (c ∉ ['\\', '\n', '\r', quote] ∧ written = [c]) ∨
      ∃ body, written = '\\' :: body ∧ ∀ rest, escape (body ++ rest) = (body.length, .ok c) := by
  cases encodes with
  | itself plain => exact .inl ⟨plain, rfl⟩
  | letter listed => exact .inr ⟨_, rfl, fun rest => escape_letter listed rest⟩
  | octal writes three denotes small =>
    exact .inr ⟨_, rfl, fun rest => escape_octal writes three denotes small rest⟩
  | unicode writes four denotes =>
    refine .inr ⟨_, rfl, fun rest => (escape_unicode writes four denotes rest).trans ?_⟩
    rw [List.length_cons, List.length_append, List.length_replicate, Nat.add_comm]

/-- There is no line end in what is written for a character. -/
theorem inLine_of_encodes (encodes : Encodes quote c written) :
    ∀ d ∈ written, d ≠ '\n' ∧ d ≠ '\r' := by
  have digits {radix : Nat} {written : List Char} {digits : List Nat} (few : radix ≤ 16)
      (writes : Writes radix written digits) : ∀ d ∈ written, d ≠ '\n' ∧ d ≠ '\r' :=
    fun d among => inLine_of_isDigit few (isDigit_of_writes few writes d among)
  cases encodes with
  | itself plain => simp_all
  | letter listed =>
    have all : letterEscapes.all fun entry => entry.2 != '\n' && entry.2 != '\r' := by decide
    simpa using List.all_eq_true.mp all _ listed
  | octal writes => exact List.forall_mem_cons.mpr ⟨by decide, digits (by decide) writes⟩
  | unicode writes =>
    refine List.forall_mem_cons.mpr ⟨by decide, List.forall_mem_cons.mpr ⟨by decide, ?_⟩⟩
    refine List.forall_mem_append.mpr ⟨fun d mark => ?_, digits (by decide) writes⟩
    rw [List.eq_of_mem_replicate mark]
    decide

/-! ### Literals -/

/-- The rest of a string literal takes the character and goes on behind what is written for it. -/
theorem stringRest_encoded (encodes : Encodes '"' c written) (extra : Nat) (value rest : List Char) :
    stringRest extra value (written ++ rest) =
      stringRest (extra + written.length) (c :: value) rest := by
  rcases plain_or_escape encodes with ⟨plain, rfl⟩ | ⟨body, rfl, escapes⟩
  · simp only [List.mem_cons, List.not_mem_nil, or_false, not_or] at plain
    obtain ⟨backslash, feed, carriage, quote⟩ := plain
    rw [List.singleton_append, stringRest]
    simp [isLineEnd, backslash, feed, carriage, quote]
  · rw [List.cons_append, stringRest, if_neg (by decide), if_neg (by decide), if_pos rfl, escapes]
    dsimp only
    rw [List.drop_left, List.length_cons, Nat.add_right_comm, Nat.add_assoc]

/-- So it takes all characters that are written before the closing quote. -/
theorem stringRest_all {chars : List Char} {writings : List (List Char)}
    (encodes : List.Forall₂ (Encodes '"') chars writings) (extra : Nat) (value rest : List Char) :
    stringRest extra value (writings.flatten ++ '"' :: rest) =
      literal (extra + writings.flatten.length + 1) .stringLiteral
        (.string (String.ofList (value.reverse ++ chars))) := by
  induction encodes generalizing extra value with
  | nil =>
    rw [List.flatten_nil, List.nil_append, stringRest, if_neg (by decide), if_pos rfl,
      List.append_nil]
    rfl
  | cons first _ ih =>
    rw [List.flatten_cons, List.append_assoc, stringRest_encoded first, ih, List.length_append,
      List.reverse_cons, List.append_assoc, List.singleton_append, Nat.add_assoc extra]

theorem charLiteral_encoded (encodes : Encodes '\'' c written) (rest : List Char) :
    charLiteral (written ++ '\'' :: rest) =
      literal (written.length + 1) .charLiteral (.char c) := by
  rcases plain_or_escape encodes with ⟨plain, rfl⟩ | ⟨body, rfl, escapes⟩
  · simp only [List.mem_cons, List.not_mem_nil, or_false, not_or] at plain
    obtain ⟨backslash, feed, carriage, quote⟩ := plain
    simp [charLiteral, isLineEnd, backslash, feed, carriage, quote, charEnd]
  · rw [List.cons_append, charLiteral_ok (escapes _), List.drop_left, charEnd, if_pos (by rfl),
      List.length_cons, Nat.add_comm 1]

/-- The text between two quotes. -/
def quoted (quote : Char) (text : List Char) : List Char := quote :: (text ++ [quote])

end Lexeme

namespace Lexer

open Lexeme

theorem next_quoted {quote : Char} {text rest : List Char} {kind : Kind} {value : TokenValue}
    {inTypes : Bool} (isQuote : quote = '\'' ∨ quote = '"') (inLine : ∀ d ∈ text, d ≠ '\n' ∧ d ≠ '\r')
    (scanned : scan inTypes quote (text ++ quote :: rest) = literal (text.length + 1) kind value)
    (position : Position) : next ⟨quoted quote text ++ rest, position, inTypes⟩ =
      (⟨kind, String.ofList (quoted quote text), position, value⟩,
        ⟨rest, position.shift (quoted quote text).length, inTypes⟩) := by
  have marks : quote ≠ '\n' ∧ quote ≠ '\r' := by rcases isQuote with rfl | rfl <;> decide
  have whole : scan inTypes quote (text ++ [quote] ++ rest) =
      ⟨(text ++ [quote]).length, .ok (kind, value)⟩ := by
    rw [List.append_assoc, List.singleton_append, scanned, List.length_append]
    rfl
  exact next_inLine (List.forall_mem_cons.mpr ⟨marks, List.forall_mem_append.mpr
    ⟨inLine, List.forall_mem_singleton.mpr marks⟩⟩) whole position

/-- However the characters of a string are written, a literal of what is written for them is read
as a string literal of these characters, whatever stands behind it; and a character literal as the
character. -/
theorem next_of_encodings (position : Position) (inTypes : Bool) (rest : List Char) :
    (∀ {chars : List Char} {writings : List (List Char)},
      List.Forall₂ (Encodes '"') chars writings →
        next ⟨quoted '"' writings.flatten ++ rest, position, inTypes⟩ =
          (⟨.stringLiteral, String.ofList (quoted '"' writings.flatten), position,
              .string (String.ofList chars)⟩,
            ⟨rest, position.shift (quoted '"' writings.flatten).length, inTypes⟩)) ∧
    ∀ {c : Char} {written : List Char}, Encodes '\'' c written →
      next ⟨quoted '\'' written ++ rest, position, inTypes⟩ =
        (⟨.charLiteral, String.ofList (quoted '\'' written), position, .char c⟩,
          ⟨rest, position.shift (quoted '\'' written).length, inTypes⟩) := by
  constructor
  · intro chars writings encodes
    have inLine : ∀ d ∈ writings.flatten, d ≠ '\n' ∧ d ≠ '\r' := by
      induction encodes with
      | nil => simp
      | cons first _ ih => exact List.forall_mem_append.mpr ⟨inLine_of_encodes first, ih⟩
    refine next_quoted (.inr rfl) inLine ?_ position
    exact (stringRest_all encodes 0 [] rest).trans (by rw [Nat.zero_add]; rfl)
  · intro c written encodes
    exact next_quoted (.inl rfl) (inLine_of_encodes encodes) (charLiteral_encoded encodes rest)
      position

/-- A tab, a quote and a letter, each written as an escape of another form, and a quote that is
written as itself. -/
theorem next_of_escapes :
    next ⟨"\"\\011\\\"\\uu006A\"+".toList, .start, false⟩ =
      (⟨.stringLiteral, "\"\\011\\\"\\uu006A\"", .start, .string "\t\"j"⟩,
        ⟨['+'], ⟨1, 16⟩, false⟩) ∧
    next ⟨"'\"'+".toList, .start, false⟩ =
      (⟨.charLiteral, "'\"'", .start, .char '"'⟩, ⟨['+'], ⟨1, 4⟩, false⟩) := by
  have zero {radix : Nat} (some : 0 < radix) : 0 < radix ∧ '0' ∈ Digits.spellings 0 :=
    ⟨some, by decide⟩
  have one : 1 < 8 ∧ '1' ∈ Digits.spellings 1 := by decide
  have six : 6 < 16 ∧ '6' ∈ Digits.spellings 6 := by decide
  have ten : 10 < 16 ∧ 'A' ∈ Digits.spellings 10 := by decide
  have tab : Encodes '"' '\t' ['\\', '0', '1', '1'] :=
    .octal (.cons (zero (by decide)) (.cons one (.cons one .nil))) rfl (by decide) (by decide)
  have quote : Encodes '"' '"' ['\\', '"'] := .letter (by decide)
  have letter : Encodes '"' 'j' ['\\', 'u', 'u', '0', '0', '6', 'A'] :=
    @Encodes.unicode '"' 'j' 1 ['0', '0', '6', 'A'] [0, 0, 6, 10]
      (.cons (zero (by decide)) (.cons (zero (by decide)) (.cons six (.cons ten .nil))))
      rfl (by decide)
  obtain ⟨strings, characters⟩ := next_of_encodings .start false ['+']
  exact ⟨strings (.cons tab (.cons quote (.cons letter .nil))), characters (.itself (by decide))⟩

end Lexer

end JavaFrontend
