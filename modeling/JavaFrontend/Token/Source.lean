import JavaFrontend.Token.Lexer

/-!
Where a parser gets its tokens from: the lexer of a text, or a list of tokens made beforehand.
-/

namespace JavaFrontend

/-- Tokens made beforehand, and the place behind the last of them. -/
structure TokenList where
  tokens : List Token
  finish : Position

namespace TokenList

/-- The last column that the end of a list may be in. -/
def lastColumn : Nat := UInt32.size - 1

/-- The tokens up to the first end mark, if there is one. -/
def ofTokens (tokens : List Token) : TokenList :=
  let tokens := tokens.takeWhile (·.kind != .endOfInput)
  let finish := match tokens.getLast? with
    | some { text, position, .. } =>
      ⟨position.line, min (position.column + text.length) lastColumn⟩
    | none => .start
  { tokens, finish }

/-- A token of each kind, in successive columns of one line, with the spelling or the description
of the kind as its text. -/
def ofKinds (kinds : List Kind) : TokenList :=
  ofTokens (kinds.mapIdx fun i kind => { kind, text := kind.text, position := ⟨1, i + 1⟩ })

end TokenList

/-- Where a parser gets its tokens from. -/
inductive TokenSource where
  | text (lexer : Lexer)
  | list (tokens : TokenList)

namespace TokenSource

def ofString (source : String) : TokenSource := .text (.ofString source)

/-- The next token; at the end, the end mark again and again. -/
def next : TokenSource → Token × TokenSource
  | .text lexer =>
    let (token, lexer) := lexer.next
    (token, .text lexer)
  | .list { tokens := [], finish } => (.endOfInput finish, .list { tokens := [], finish })
  | .list { tokens := token :: tokens, finish } => (token, .list { tokens, finish })

/-- Whether anything but the end mark is left. -/
def hasMore : TokenSource → Bool
  | .text lexer => lexer.hasMore
  | .list source => !source.tokens.isEmpty

/-- Says whether type arguments may close here. A list of tokens is what it is. -/
def setInTypes (inTypes : Bool) : TokenSource → TokenSource
  | .text lexer => .text (lexer.setInTypes inTypes)
  | .list source => .list source

/-- Where the next token starts. -/
def position : TokenSource → Position
  | .text lexer => lexer.position
  | .list { tokens := token :: _, .. } => token.position
  | .list { tokens := [], finish } => finish

/-- How much is left: characters of a text, tokens of a list. -/
def remaining : TokenSource → Nat
  | .text lexer => lexer.text.length
  | .list source => source.tokens.length

theorem remaining_next_lt {source : TokenSource} (h : source.hasMore) :
    source.next.2.remaining < source.remaining := by
  cases source with
  | text lexer => exact Lexer.length_next_lt (by simpa [hasMore, Lexer.hasMore] using h)
  | list source =>
    obtain ⟨tokens, finish⟩ := source
    cases tokens with
    | nil => simp [hasMore] at h
    | cons token tokens => simp [next, remaining]

/-- The next token that is no trivia, or the end mark. -/
def nextSignificant (source : TokenSource) : Token × TokenSource :=
  if source.next.1.kind.isTrivia && source.hasMore then source.next.2.nextSignificant
  else source.next
termination_by source.remaining
decreasing_by exact remaining_next_lt (by simp_all)

@[simp] theorem remaining_setInTypes (source : TokenSource) (inTypes : Bool) :
    (source.setInTypes inTypes).remaining = source.remaining := by
  cases source <;> rfl

theorem next_of_not_hasMore {source : TokenSource} (h : ¬ source.hasMore) :
    source.next.1.kind = .endOfInput := by
  cases source with
  | text lexer =>
    obtain ⟨text, position, inTypes⟩ := lexer
    cases text with
    | nil => rfl
    | cons c text => simp [hasMore, Lexer.hasMore] at h
  | list source =>
    obtain ⟨tokens, finish⟩ := source
    cases tokens with
    | nil => rfl
    | cons token tokens => simp [hasMore] at h

/-- A token other than the end mark is taken away from the source. -/
theorem remaining_nextSignificant_lt {source : TokenSource}
    (h : source.nextSignificant.1.kind ≠ .endOfInput) :
    source.nextSignificant.2.remaining < source.remaining := by
  fun_induction nextSignificant source with
  | case1 source more ih =>
    exact Nat.lt_trans (ih h) (remaining_next_lt (by simp_all))
  | case2 source stop =>
    refine remaining_next_lt (Classical.byContradiction fun none => ?_)
    exact h (next_of_not_hasMore none)

end TokenSource

end JavaFrontend
