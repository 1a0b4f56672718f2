import JavaFrontend.Proofs.Token.Symbols

/-!
What scanning can find. A lexeme is a literal with a value of its kind, or of a kind without values;
and nothing in a text looks like the end mark.
-/

namespace JavaFrontend

/-- The kind of the literals that have such a value. -/
def TokenValue.kind? : TokenValue → Option Kind
  | .int _ => some .intLiteral
  | .long _ => some .longLiteral
  | .float _ => some .floatLiteral
  | .double _ => some .doubleLiteral
  | .char _ => some .charLiteral
  | .string _ => some .stringLiteral
  | .none | .error _ => Option.none

namespace Lexeme

open Digits

/-- A kind that is written in texts and has no values. -/
def isPlain (kind : Kind) : Bool :=
  !kind.isValueLiteral && kind != .endOfInput && kind != .invalid

/-- What was found is a literal with a value of its kind, or of a plain kind, unless it is a
fault. -/
inductive Sound : Lexeme → Prop where
  | plain (extra : Nat) {kind : Kind} (same : isPlain kind) : Sound (plain extra kind)
  | literal (extra : Nat) {kind : Kind} {value : TokenValue} (same : value.kind? = some kind) :
    Sound (literal extra kind value)
  | fault (extra : Nat) (reason : LexError) : Sound (fault extra reason)

/-- What was found is a literal with a value of its kind, unless it is a fault. -/
inductive Valued : Lexeme → Prop where
  | literal (extra : Nat) {kind : Kind} {value : TokenValue} (same : value.kind? = some kind) :
    Valued (literal extra kind value)
  | fault (extra : Nat) (reason : LexError) : Valued (fault extra reason)

theorem Valued.sound {lexeme : Lexeme} : lexeme.Valued → lexeme.Sound
  | .literal extra same => .literal extra same
  | .fault extra reason => .fault extra reason

theorem isPlain_of_mem_fixed {kind : Kind} (member : kind ∈ Kind.fixed) : isPlain kind := by
  have all : ∀ kind ∈ Kind.fixed, isPlain kind := by decide
  exact all kind member

/-! ### Numbers -/

theorem valued_integer (extra radix : Nat) (digits text : List Char) :
    (integer extra radix digits text).Valued := by
  unfold integer
  dsimp only
  split
  · exact .fault _ _
  · split
    · split
      · exact .literal _ rfl
      · exact .fault _ _
    · split
      · exact .literal _ rfl
      · exact .fault _ _

theorem valued_floating (extra : Nat) (whole fraction : List Char) (exponent : Int)
    (text : List Char) : (floating extra whole fraction exponent text).Valued := by
  unfold floating
  dsimp only
  split
  · split
    · exact .literal _ rfl
    · exact .fault _ _
  · split
    · exact .literal _ rfl
    · exact .fault _ _
  · split
    · exact .literal _ rfl
    · exact .fault _ _

theorem valued_exponentPart (extra : Nat) (whole fraction text : List Char) :
    (exponentPart extra whole fraction text).Valued := by
  have signed (digits rest : List Char) (longer : Nat) (exponent : Int) :
      (if digits.isEmpty then fault longer (.malformedNumber .emptyExponent)
        else if endsInSeparator digits then fault longer (.malformedNumber .separatorAtEnd)
        else floating longer whole fraction exponent rest).Valued := by
    split
    · exact .fault _ _
    · split
      · exact .fault _ _
      · exact valued_floating ..
  unfold exponentPart
  split
  · exact signed ..
  · exact signed ..
  · exact valued_floating ..

theorem valued_fractionPart (extra : Nat) (whole text : List Char) :
    (fractionPart extra whole text).Valued := by
  unfold fractionPart
  dsimp only
  split
  · exact .fault _ _
  · exact valued_exponentPart ..

theorem valued_prefixedInteger (radix : Nat) (text : List Char) :
    (prefixedInteger radix text).Valued := by
  unfold prefixedInteger
  dsimp only
  split
  · exact .fault _ _
  · split
    · exact .fault _ _
    · exact valued_integer ..

theorem valued_decimalOrOctal (first : Char) (text : List Char) :
    (decimalOrOctal first text).Valued := by
  unfold decimalOrOctal
  dsimp only
  split
  · split
    · exact .fault _ _
    · split
      · exact valued_fractionPart ..
      · exact valued_exponentPart ..
  · split
    · split
      · exact valued_integer ..
      · exact .fault _ _
    · exact valued_integer ..

theorem valued_numeric (first : Char) (text : List Char) : (numeric first text).Valued := by
  unfold numeric
  split
  · exact valued_prefixedInteger ..
  · exact valued_prefixedInteger ..
  · exact valued_prefixedInteger ..
  · exact valued_prefixedInteger ..
  · exact valued_decimalOrOctal ..

/-! ### Characters and strings -/

theorem valued_charEnd (extra : Nat) (value : Char) (text : List Char) :
    (charEnd extra value text).Valued := by
  unfold charEnd
  split
  · exact .literal _ rfl
  · dsimp only
    split <;> exact .fault _ _

theorem valued_charLiteral (text : List Char) : (charLiteral text).Valued := by
  unfold charLiteral
  split
  · exact .fault _ _
  · split
    · exact .fault _ _
    · split
      · exact .fault _ _
      · split
        · split
          · exact valued_charEnd ..
          · exact .fault _ _
        · exact valued_charEnd ..

theorem valued_stringRest (extra : Nat) (value text : List Char) :
    (stringRest extra value text).Valued := by
  fun_induction stringRest extra value text with
  | case3 => exact .literal _ rfl
  | case4 _ _ _ _ _ _ _ _ ih => exact ih
  | case6 _ _ _ _ _ _ _ ih => exact ih
  | _ => exact .fault _ _

/-! ### All lexemes -/

theorem isPlain_wordKind (word : String) : isPlain (wordKind word) := by
  unfold wordKind
  split
  · rename_i kind found
    split
    · exact isPlain_of_mem_fixed (List.mem_of_find?_eq_some found)
    · rfl
  · rfl

theorem sound_comment {text : List Char} {lexeme : Lexeme} (found : comment? text = some lexeme) :
    lexeme.Sound := by
  unfold comment? at found
  split at found
  · cases found
    exact .plain _ rfl
  · split at found
    · cases found
      exact .plain _ rfl
    · cases found
      exact .fault _ _
  · cases found

/-- A symbol is one of the separators and operators, written as it is spelled. -/
theorem mem_fixed_of_symbol? {text written : List Char} {kind : Kind}
    (found : symbol? text = some (written, kind)) :
    kind ∈ Kind.fixed ∧ written = kind.text.toList ∧ written <+: text := by
  obtain ⟨symbol, spelled, first, -⟩ := longest_of_symbol? found
  exact ⟨Kind.mem_fixed_of_isSymbol symbol, spelled, first⟩

theorem sound_symbol (inTypes : Bool) (c : Char) (text : List Char) :
    (symbol inTypes c text).Sound := by
  rw [symbol_eq]
  split
  · exact .plain _ rfl
  · split
    · rename_i found
      exact .plain _ (isPlain_of_mem_fixed (mem_fixed_of_symbol? found).1)
    · exact .fault _ _

/-- The ways to scan what stands behind a character. Which of them it is depends on that character
alone. -/
inductive ScansAs (inTypes : Bool) (c : Char) : (List Char → Lexeme) → Prop where
  | blank (blank : isBlank c) :
    ScansAs inTypes c fun text => plain (text.takeWhile isBlank).length .whitespace
  | single {kind : Kind} (trivia : kind.isTrivia) : ScansAs inTypes c fun _ => plain 0 kind
  | carriageReturn : ScansAs inTypes c fun text =>
      if text.head? == some '\n' then plain 1 .carriageReturnLineFeed else plain 0 .carriageReturn
  | character (quote : c = '\'') : ScansAs inTypes c charLiteral
  | string (quote : c = '"') : ScansAs inTypes c stringLiteral
  | number (digit : isDigit 10 c) : ScansAs inTypes c (numeric c)
  | word : ScansAs inTypes c fun text =>
      plain (text.takeWhile isIdentifierPart).length
        (wordKind (String.ofList (c :: text.takeWhile isIdentifierPart)))
  | point (point : c = '.') : ScansAs inTypes c fun text =>
      if text.head?.any (isDigit 10) then fractionPart 0 [] text else symbol inTypes c text
  | slash : ScansAs inTypes c fun text => (comment? text).getD (symbol inTypes c text)
  | symbol : ScansAs inTypes c (symbol inTypes c)

theorem scansAs (inTypes : Bool) (c : Char) : ScansAs inTypes c (scan inTypes c) := by
  change ScansAs inTypes c fun text => scan inTypes c text
  unfold scan
  by_cases blank : isBlank c
  · simpa only [if_pos blank] using .blank blank
  simp only [if_neg blank]
  by_cases feed : c = '\n'
  · simpa only [if_pos feed] using .single rfl
  simp only [if_neg feed]
  by_cases carriage : c = '\r'
  · simpa only [if_pos carriage] using .carriageReturn
  simp only [if_neg carriage]
  by_cases substitute : c = '\x1a'
  · simpa only [if_pos substitute] using .single rfl
  simp only [if_neg substitute]
  by_cases quote : c = '\''
  · simpa only [if_pos quote] using .character quote
  simp only [if_neg quote]
  by_cases string : c = '"'
  · simpa only [if_pos string] using .string string
  simp only [if_neg string]
  by_cases digit : isDigit 10 c
  · simpa only [if_pos digit] using .number digit
  simp only [if_neg digit]
  by_cases letter : isIdentifierStart c
  · simpa only [if_pos letter] using .word
  simp only [if_neg letter]
  by_cases point : c = '.'
  · subst point
    exact .point rfl
  by_cases slash : c = '/'
  · subst slash
    exact .slash
  · simpa [point, slash] using .symbol

/-- The ways to scan what begins with a character. -/
inductive Scans (inTypes : Bool) (c : Char) (text : List Char) : Lexeme → Prop where
  | blank (extra : Nat) {kind : Kind} (trivia : kind.isTrivia) :
    Scans inTypes c text (plain extra kind)
  | character (quote : c = '\'') : Scans inTypes c text (charLiteral text)
  | string (quote : c = '"') : Scans inTypes c text (stringLiteral text)
  | number (digit : isDigit 10 c) : Scans inTypes c text (numeric c text)
  | word (extra : Nat) (word : String) : Scans inTypes c text (plain extra (wordKind word))
  | fraction (point : c = '.') : Scans inTypes c text (fractionPart 0 [] text)
  | comment {lexeme : Lexeme} (found : comment? text = some lexeme) : Scans inTypes c text lexeme
  | symbol : Scans inTypes c text (symbol inTypes c text)

theorem scans (inTypes : Bool) (c : Char) (text : List Char) :
    Scans inTypes c text (scan inTypes c text) := by
  have scansAs := scansAs inTypes c
  generalize scan inTypes c = scan at scansAs ⊢
  cases scansAs with
  | blank => exact .blank _ rfl
  | single trivia => exact .blank _ trivia
  | carriageReturn =>
    dsimp only
    split <;> exact .blank _ rfl
  | character quote => exact .character quote
  | string quote => exact .string quote
  | number digit => exact .number digit
  | word => exact .word _ _
  | point point =>
    dsimp only
    split
    · exact .fraction point
    · exact .symbol
  | slash =>
    dsimp only
    cases found : comment? text with
    | some lexeme => exact .comment found
    | none => exact .symbol
  | symbol => exact .symbol

theorem isPlain_of_isTrivia {kind : Kind} (trivia : kind.isTrivia) : isPlain kind := by
  revert trivia
  cases kind <;> decide

theorem sound_scan (inTypes : Bool) (c : Char) (text : List Char) :
    (scan inTypes c text).Sound := by
  have scans := scans inTypes c text
  generalize scan inTypes c text = lexeme at scans ⊢
  cases scans with
  | blank extra trivia => exact .plain _ (isPlain_of_isTrivia trivia)
  | character => exact (valued_charLiteral ..).sound
  | string => exact (valued_stringRest ..).sound
  | number => exact (valued_numeric ..).sound
  | word extra word => exact .plain _ (isPlain_wordKind word)
  | fraction => exact (valued_fractionPart ..).sound
  | comment found => exact sound_comment found
  | symbol => exact sound_symbol ..

end Lexeme

/-! ### Tokens of texts -/

/-- What tokens of texts are: faults, or literals with a value of their kind, or tokens of other
kinds without a value. -/
inductive Token.Sound (token : Token) : Prop where
  | fault (reason : LexError) (kind : token.kind = .invalid) (value : token.value = .error reason)
  | literal (value : token.value.kind? = some token.kind)
  | plain (kind : token.kind.isValueLiteral = false) (value : token.value = .none)

/-- Only a token of the kind for faults is one. -/
theorem Token.Sound.error?_eq_none {token : Token} (sound : token.Sound)
    (valid : token.kind ≠ .invalid) : token.error? = none := by
  unfold Token.error?
  cases sound with
  | fault _ same => exact absurd same valid
  | literal same =>
    cases value : token.value with
    | error => rw [value] at same; cases same
    | _ => rfl
  | plain _ value => rw [value]

namespace Lexer

variable (lexer : Lexer)

/-- Whatever a lexer hands out is sound, and it is the end mark if and only if nothing is left. -/
theorem sound_next : lexer.next.1.Sound ∧
    (lexer.next.1.kind = .endOfInput ↔ lexer.text = []) := by
  obtain ⟨text, position, inTypes⟩ := lexer
  cases text with
  | nil => exact ⟨.plain rfl rfl, by simp [next, Token.endOfInput]⟩
  | cons c text =>
    have sound := Lexeme.sound_scan inTypes c text
    unfold next
    dsimp only
    generalize Lexeme.scan inTypes c text = lexeme at sound
    cases sound with
    | plain extra plain =>
      simp only [Lexeme.isPlain, Bool.and_eq_true, Bool.not_eq_true', bne_iff_ne] at plain
      exact ⟨.plain plain.1.1 rfl, by simpa [Lexeme.plain] using plain.1.2⟩
    | @literal extra kind value same =>
      refine ⟨.literal same, ?_⟩
      have other : kind ≠ .endOfInput := by
        rintro rfl
        cases value <;> cases same
      simpa [Lexeme.literal] using other
    | fault extra reason => exact ⟨.fault reason rfl rfl, by simp [Lexeme.fault]⟩

end Lexer

end JavaFrontend
