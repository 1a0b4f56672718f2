import JavaFrontend.Token.Lexeme.Scan

/-!
A lexer reads the tokens of a text one at a time, blanks and comments included. Each token takes
at least one character, and its text together with the text left over is the text it was read from.
-/

namespace JavaFrontend

/-- What is left of a text, where that is, and whether type arguments may close there. -/
structure Lexer where
  text : List Char
  position : Position := .start
  inTypes : Bool := false

namespace Lexer

def ofString (source : String) : Lexer := { text := source.toList }

/-- The next token; at the end, the end mark again and again. -/
def next (lexer : Lexer) : Token × Lexer :=
  match lexer.text with
  | [] => (.endOfInput lexer.position, lexer)
  | c :: text =>
    let lexeme := Lexeme.scan lexer.inTypes c text
    let taken := c :: text.take lexeme.extra
    let left := text.drop lexeme.extra
    let token := match lexeme.outcome with
      | .ok (kind, value) =>
        { kind, text := String.ofList taken, position := lexer.position, value : Token }
      | .error reason =>
        { kind := .invalid, text := String.ofList taken, position := lexer.position,
          value := .error reason }
    (token, { lexer with text := left, position := lexer.position.advance taken left })

/-- Whether anything but the end mark is left. -/
def hasMore (lexer : Lexer) : Bool := !lexer.text.isEmpty

/-- Says whether type arguments may close here; if so, `>` is never joined to what follows. -/
def setInTypes (lexer : Lexer) (inTypes : Bool) : Lexer := { lexer with inTypes }

theorem length_next_lt {lexer : Lexer} (h : lexer.text ≠ []) :
    lexer.next.2.text.length < lexer.text.length := by
  obtain ⟨text, position, inTypes⟩ := lexer
  cases text with
  | nil => exact absurd rfl h
  | cons c text =>
    simpa only [next, List.length_drop, List.length_cons] using
      Nat.lt_succ_of_le (Nat.sub_le _ _)

/-- All the tokens that are left, the end mark included. -/
def tokens (lexer : Lexer) : List Token :=
  if lexer.text = [] then [lexer.next.1]
  else lexer.next.1 :: lexer.next.2.tokens
termination_by lexer.text.length
decreasing_by exact length_next_lt ‹_›

end Lexer

end JavaFrontend
