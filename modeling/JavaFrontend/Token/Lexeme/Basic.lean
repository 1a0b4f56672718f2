import JavaFrontend.Token.Basic

/-!
What scanning finds at the head of a text. Every lexeme takes the first character of the text; how
many it takes beyond that one is part of the answer, for a faulty stretch too.
-/

namespace JavaFrontend

/-- A stretch of text: how many characters it takes after its first one, and what it is. -/
structure Lexeme where
  extra : Nat
  outcome : Except LexError (Kind × TokenValue)

namespace Lexeme

/-- A stretch without a value of its own. -/
def plain (extra : Nat) (kind : Kind) : Lexeme := ⟨extra, .ok (kind, .none)⟩

def literal (extra : Nat) (kind : Kind) (value : TokenValue) : Lexeme := ⟨extra, .ok (kind, value)⟩

def fault (extra : Nat) (reason : LexError) : Lexeme := ⟨extra, .error reason⟩

end Lexeme

end JavaFrontend
