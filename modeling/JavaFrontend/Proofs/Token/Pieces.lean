import JavaFrontend.Proofs.Token.Words

/-!
Texts of words and symbols with a blank between each two. What is one token as a text of its own is
that token in front of a blank too, so such a text has the tokens of its pieces
(`Lexer.pending_of_pieces`).
-/

namespace JavaFrontend

open Lexeme (isIdentifierStart isIdentifierPart wordKind scan plain isBlank)

namespace Lexeme

variable {kind : Kind} {text : List Char}

/-- Whether the text is one token of the kind, which is no trivia and has no value of its own. -/
def isPiece (kind : Kind) : List Char → Bool
  | [] => false
  | c :: more => !isBlank c && !kind.isTrivia && !kind.isValueLiteral &&
    match scan false c more with
    | ⟨extra, .ok (found, .none)⟩ => extra == more.length && found == kind
    | _ => false

theorem cases_of_isPiece (piece : isPiece kind text) :
    ∃ c more, text = c :: more ∧ isBlank c = false ∧ kind.isTrivia = false ∧
      kind.isValueLiteral = false ∧ scan false c more = plain more.length kind := by
  cases text with
  | nil => cases piece
  | cons c more =>
    simp only [isPiece, Bool.and_eq_true, Bool.not_eq_true'] at piece
    obtain ⟨⟨⟨blank, significant⟩, bare⟩, found⟩ := piece
    refine ⟨c, more, rfl, blank, significant, bare, ?_⟩
    split at found
    · next same =>
      obtain ⟨length, isKind⟩ := Bool.and_eq_true_iff.mp found
      rw [same, beq_iff_eq.mp length, beq_iff_eq.mp isKind]
      rfl
    · cases found

/-- Words are such texts. -/
theorem isPiece_word {c : Char} {more : List Char} (start : isIdentifierStart c)
    (part : ∀ d ∈ more, isIdentifierPart d)
    (named : wordKind (String.ofList (c :: more)) = kind) (bare : kind.isValueLiteral = false) :
    isPiece kind (c :: more) := by
  have scanned : scan false c (more ++ []) = _ := scan_word start part (by simp)
  rw [List.append_nil, named] at scanned
  have significant : kind.isTrivia = false := named ▸ isTrivia_wordKind _
  simp [isPiece, isBlank_of_start start, significant, bare, scanned, plain]

/-- Such a text is scanned the same at the end of a longer one and in front of a blank. -/
theorem scan_of_isPiece {c : Char} {more rest : List Char} (bare : kind.isValueLiteral = false)
    (significant : kind.isTrivia = false) (found : scan false c more = plain more.length kind)
    (ends : ∀ d ∈ rest.head?, d = ' ') :
    scan false c (more ++ rest) = plain more.length kind := by
  have ok : (scan false c more).outcome = .ok (kind, .none) := by rw [found]; rfl
  obtain ⟨taken, left, whole, length, same⟩ := scan_stays ok
  obtain rfl : left = [] := by
    rw [found, whole] at length
    simpa [plain] using length
  obtain rfl : more = taken := by rw [whole, List.append_nil]
  rw [same rest, found]
  rw [if_neg (by simp [significant])]
  refine ⟨?_, fun int => ?_⟩
  · cases rest with
    | nil => exact .inl rfl
    | cons d rest =>
      obtain rfl := ends d rfl
      exact .inr ⟨[], [], rest, rfl, rfl⟩
  · obtain rfl : kind = .intLiteral := int
    cases bare

end Lexeme

namespace Lexer

open Lexeme (isPiece)

/-- So it is handed out as one token there. -/
theorem pending_of_isPiece {kind : Kind} {text : String} {rest : List Char}
    (piece : isPiece kind text.toList) (ends : ∀ d ∈ rest.head?, d = ' ') (position : Position) :
    ∃ (token : Token) (behind : Position), (token.kind, token.text) = (kind, text) ∧
      (⟨text.toList ++ rest, position, false⟩ : Lexer).pending =
        token :: (⟨rest, behind, false⟩ : Lexer).pending := by
  obtain ⟨c, more, written, -, significant, bare, found⟩ := Lexeme.cases_of_isPiece piece
  have same : text = String.ofList (c :: more) := by rw [← written, String.ofList_toList]
  obtain ⟨behind, first⟩ := pending_of_scan position
    (Lexeme.scan_of_isPiece bare significant found ends) significant
  rw [written, same]
  exact ⟨_, behind, rfl, first⟩

/-- The tokens of a text of such pieces with a blank between each two are its pieces. -/
theorem pending_of_pieces (pieces : List (Kind × String))
    (each : ∀ piece ∈ pieces, isPiece piece.1 piece.2.toList) (position : Position) :
    ∃ tokens place, tokens.map (fun token => (token.kind, token.text)) = pieces ∧
      (⟨[' '].intercalate (pieces.map (·.2.toList)), position, false⟩ : Lexer).pending =
        tokens ++ [Token.endOfInput place] := by
  induction pieces generalizing position with
  | nil => exact ⟨[], position, rfl, pending_end rfl⟩
  | cons piece pieces ih =>
    obtain ⟨here, later⟩ := List.forall_mem_cons.mp each
    cases pieces with
    | nil =>
      have alone : ∀ d ∈ ([] : List Char).head?, d = ' ' := by simp
      obtain ⟨token, behind, same, first⟩ := pending_of_isPiece here alone position
      refine ⟨[token], behind, congrArg (· :: []) same, ?_⟩
      rw [List.map_singleton, List.intercalate_singleton, ← List.append_nil piece.2.toList, first,
        pending_end rfl]
      rfl
    | cons second pieces =>
      obtain ⟨c, chars, written, blank, -⟩ := Lexeme.cases_of_isPiece (later second (by simp))
      let others : List Char := [' '].intercalate ((second :: pieces).map (·.2.toList))
      have stops : ∀ d ∈ others.head?, isBlank d = false := by simp [others, written, blank]
      have spaced : ∀ d ∈ (' ' :: others).head?, d = ' ' := by simp
      obtain ⟨token, behind, same, first⟩ := pending_of_isPiece here spaced position
      obtain ⟨next, passed⟩ := pending_blank behind stops
      obtain ⟨tokens, place, more, rest⟩ := ih later next
      refine ⟨token :: tokens, place, congrArg₂ _ same more, ?_⟩
      rw [List.map_cons, List.map_cons, List.intercalate_cons_cons, List.append_assoc]
      exact first.trans (congrArg _ (passed.trans rest))

end Lexer

end JavaFrontend
