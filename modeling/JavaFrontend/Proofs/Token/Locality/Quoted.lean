import JavaFrontend.Proofs.Token.Locality.Numbers

/-!
How far character and string literals look: a literal with its closing quote is the same whatever
stands behind it.
-/

namespace JavaFrontend.Lexeme

open Digits

variable {text rest other : List Char}

/-- Characters that are taken from a text as far as there are some of a sort, but at most so many,
are the same if the text goes on with the same character behind them. -/
theorem exists_most (p : Char → Bool) (most : Nat) (text : List Char) : ∃ taken rest,
    text = taken ++ rest ∧ ∀ other : List Char, other.head? = rest.head? →
      ((taken ++ other).take most).takeWhile p = taken := by
  induction most generalizing text with
  | zero => exact ⟨[], text, rfl, fun other _ => by simp⟩
  | succ most ih =>
    have stopped (stops : text.takeWhile p = []) : ∃ taken rest, text = taken ++ rest ∧
        ∀ other : List Char, other.head? = rest.head? →
          ((taken ++ other).take (most + 1)).takeWhile p = taken := by
      refine ⟨[], text, rfl, fun other same => ?_⟩
      have none := takeWhile_eq_nil_of_head? same stops
      cases other with
      | nil => rfl
      | cons c other =>
        cases holds : p c with
        | true => simp [holds] at none
        | false => simp [holds]
    cases text with
    | nil => exact stopped rfl
    | cons c text =>
      by_cases holds : p c
      · obtain ⟨taken, rest, rfl, same⟩ := ih text
        exact ⟨c :: taken, rest, rfl, fun other head => by simp [holds, same other head]⟩
      · exact stopped (by simp [holds])

/-- Characters that are read as a prefix of the text. -/
def Ends (read : List Char → Nat × Except LexError Char) (text : List Char) : Prop :=
  ∃ taken rest, text = taken ++ rest ∧ (read text).1 = taken.length ∧
    ∀ other : List Char, other.head? = rest.head? → read (taken ++ other) = read text

theorem ends_unicodeEscape {value : Char} (ok : (unicodeEscape text).2 = .ok value) :
    Ends unicodeEscape text := by
  obtain ⟨marks, rest, rfl, -, stops, run⟩ := exists_run (· == 'u') text
  obtain ⟨digits, rest, rfl, four⟩ := exists_most (isDigit 16) 4 rest
  have read (other : List Char) (same : other.head? = rest.head?) :
      unicodeEscape (marks ++ (digits ++ other)) = if digits.length = 4 then
          (marks.length + 4, (charOf? (number 16 digits)).elim (.error (.illegalEscape 'u')) .ok)
        else (marks.length + min (digits.length + 1) ((digits ++ other).take 4).length,
          .error (.illegalEscape 'u')) := by
    have behind : (digits ++ other).head? = (digits ++ rest).head? := by
      rw [List.head?_append, List.head?_append, same]
    unfold unicodeEscape
    simp only [run _ (takeWhile_eq_nil_of_head? behind stops), List.drop_left, four other same]
  have whole := read rest rfl
  have enough : digits.length = 4 := by
    by_contra short
    rw [whole, if_neg short] at ok
    cases ok
  rw [if_pos enough] at whole
  refine ⟨marks ++ digits, rest, (List.append_assoc ..).symm, ?_, fun other same => ?_⟩
  · rw [whole, List.length_append, enough]
  · rw [whole, List.append_assoc, read other same, if_pos enough]

/-- An escape that stands for something ends where the character behind it does not go on with
it. -/
theorem ends_escape {value : Char} (ok : (escape text).2 = .ok value) : Ends escape text := by
  cases text with
  | nil => cases ok
  | cons c text =>
    cases letter : letterEscape? c with
    | some decoded =>
      have read (other : List Char) : escape (c :: other) = (1, .ok decoded) := by
        simp [escape, letter]
      exact ⟨[c], text, rfl, by rw [read]; rfl, fun other _ => by
        rw [List.singleton_append, read, read]⟩
    | none =>
      by_cases octal : isDigit 8 c
      · obtain ⟨more, rest, rfl, run⟩ := exists_most (isDigit 8) (if c ≤ '3' then 2 else 1) text
        have read (other : List Char) (same : other.head? = rest.head?) :
            escape (c :: (more ++ other)) =
              (1 + more.length, .ok (Char.ofNat (number 8 (c :: more)))) := by
          unfold escape
          simp only [letter, octal, if_true, run other same]
        exact ⟨c :: more, rest, rfl, by rw [read rest rfl, Nat.add_comm]; rfl, fun other same => by
          rw [List.cons_append, read other same, read rest rfl]⟩
      · have read (other : List Char) : escape (c :: other) =
            if c = 'u' then (1 + (unicodeEscape other).1, (unicodeEscape other).2)
            else (1, .error (.illegalEscape c)) := by
          unfold escape
          simp only [letter, octal, if_false, Bool.false_eq_true]
        rw [read] at ok
        split at ok
        · next unicode =>
          obtain ⟨taken, rest, rfl, length, same⟩ := ends_unicodeEscape ok
          refine ⟨c :: taken, rest, rfl, ?_, fun other head => ?_⟩
          · rw [read, if_pos unicode, length, Nat.add_comm]
            rfl
          · rw [List.cons_append, read, read, same other head]
        · cases ok

theorem head?_append {taken : List Char} (some : taken ≠ []) :
    (taken ++ other).head? = (taken ++ rest).head? := by
  cases taken with
  | nil => exact absurd rfl some
  | cons => rfl

/-- A literal with its closing quote is the same whatever stands behind it. -/
def Closed (scan : List Char → Lexeme) (start : Nat) (text : List Char) : Prop :=
  ∃ taken rest, text = taken ++ rest ∧ taken ≠ [] ∧ (scan text).extra = start + taken.length ∧
    ∀ other, scan (taken ++ other) = scan text

theorem closed_charEnd {extra : Nat} {value : Char} {found : Kind × TokenValue}
    (ok : (charEnd extra value text).outcome = .ok found) :
    Closed (charEnd extra value) extra text := by
  cases text with
  | nil => simp [charEnd, fault] at ok
  | cons c rest =>
    by_cases quote : c = '\''
    · subst quote
      exact ⟨['\''], rest, rfl, List.cons_ne_nil _ _, rfl, fun _ => rfl⟩
    · unfold charEnd at ok
      simp only [List.head?_cons, Option.some_beq_some, beq_iff_eq, quote, if_false] at ok
      split at ok <;> cases ok

theorem charLiteral_ok {length : Nat} {value : Char} (decoded : escape text = (length, .ok value)) :
    charLiteral ('\\' :: text) = charEnd (1 + length) value (text.drop length) := by
  rw [charLiteral, if_neg (by decide), if_neg (by decide), if_pos rfl, decoded]

theorem charLiteral_error {length : Nat} {reason : LexError}
    (decoded : escape text = (length, .error reason)) :
    charLiteral ('\\' :: text) = fault (1 + length) reason := by
  rw [charLiteral, if_neg (by decide), if_neg (by decide), if_pos rfl, decoded]

theorem closed_charLiteral {found : Kind × TokenValue}
    (ok : (charLiteral text).outcome = .ok found) : Closed charLiteral 0 text := by
  -- What is read for the character, and what is the end behind it.
  suffices ∃ read value, ∃ rest, text = read ++ rest ∧
      (charEnd read.length value rest).outcome = .ok found ∧
      ∀ other : List Char, other.head? = rest.head? →
        charLiteral (read ++ other) = charEnd read.length value other by
    obtain ⟨read, value, rest, rfl, ok, same⟩ := this
    obtain ⟨taken, left, rfl, some, length, last⟩ := closed_charEnd ok
    refine ⟨read ++ taken, left, (List.append_assoc ..).symm, by simp [some], ?_, fun other => ?_⟩
    · rw [same _ rfl, length, List.length_append, Nat.zero_add]
    · rw [List.append_assoc, same _ (head?_append some), same _ rfl, last other]
  cases text with
  | nil => cases ok
  | cons c rest =>
    by_cases line : isLineEnd c
    · simp [charLiteral, line, fault] at ok
    by_cases quote : c = '\''
    · subst quote
      cases ok
    by_cases escaped : c = '\\'
    · subst escaped
      cases found : escape rest with
      | mk length decoded =>
        cases decoded with
        | error reason =>
          rw [charLiteral_error found] at ok
          cases ok
        | ok value =>
          rw [charLiteral_ok found] at ok
          obtain ⟨taken, rest, rfl, same, ends⟩ := ends_escape (congrArg Prod.snd found)
          rw [found] at same ends
          obtain rfl : length = taken.length := same
          refine ⟨'\\' :: taken, value, rest, rfl, by simpa [Nat.add_comm] using ok,
            fun other head => ?_⟩
          rw [List.cons_append, charLiteral_ok (ends other head)]
          simp [Nat.add_comm]
    · have read (other : List Char) : charLiteral (c :: other) = charEnd 1 c other := by
        unfold charLiteral
        simp only [line, quote, escaped, if_false, Bool.false_eq_true]
      rw [read] at ok
      exact ⟨[c], c, rest, rfl, ok, fun other _ => read other⟩

theorem closed_stringRest {extra : Nat} {value : List Char} {found : Kind × TokenValue}
    (ok : (stringRest extra value text).outcome = .ok found) :
    Closed (stringRest extra value) extra text := by
  -- What is read first, and the rest of the literal behind it.
  have behind {extra : Nat} {value later : List Char} (read : List Char) {rest : List Char}
      (same : ∀ other : List Char, other.head? = rest.head? →
        stringRest extra value (read ++ other) = stringRest (extra + read.length) later other)
      (closed : Closed (stringRest (extra + read.length) later) (extra + read.length) rest) :
      Closed (stringRest extra value) extra (read ++ rest) := by
    obtain ⟨taken, left, rfl, some, length, last⟩ := closed
    refine ⟨read ++ taken, left, (List.append_assoc ..).symm, by simp [some], ?_, fun other => ?_⟩
    · rw [same _ rfl, length, List.length_append, Nat.add_assoc]
    · rw [List.append_assoc, same _ (head?_append some), same _ rfl, last other]
  fun_induction stringRest extra value text with
  | case1 extra value => cases ok
  | case2 extra value c rest line => cases ok
  | case3 extra value rest line =>
    have read (other : List Char) : stringRest extra value ('"' :: other) =
        literal (extra + 1) .stringLiteral (.string (String.ofList value.reverse)) := by
      rw [stringRest]
      rfl
    exact ⟨['"'], rest, rfl, List.cons_ne_nil _ _, by rw [read]; rfl, fun other => by
      rw [List.singleton_append, read, read]⟩
  | case4 extra value rest length decoded found line quote ih =>
    obtain ⟨taken, rest, rfl, same, ends⟩ := ends_escape (congrArg Prod.snd found)
    rw [found] at same ends
    obtain rfl : length = taken.length := same
    rw [List.drop_left] at ih ok
    have start : extra + 1 + taken.length = extra + ('\\' :: taken).length := by
      simp only [List.length_cons]
      omega
    refine behind ('\\' :: taken) (fun other head => ?_) (start ▸ ih ok)
    rw [List.cons_append, stringRest]
    simp [isLineEnd, ends other head, start]
  | case5 => cases ok
  | case6 extra value c rest line quote escaped ih =>
    refine behind [c] (fun other _ => ?_) (ih ok)
    rw [List.singleton_append, stringRest]
    simp only [line, quote, escaped, if_false, Bool.false_eq_true]
    rfl

end JavaFrontend.Lexeme
