import JavaFrontend.Token.Lexeme.Number
import JavaFrontend.Token.Lexeme.Quoted
import JavaFrontend.Unicode.Alphabetic
import JavaFrontend.Unicode.Numeric

/-!
The lexeme at the head of a text: blanks, line ends, comments, literals, words and symbols, each as
long as it can be. Where type arguments may close, angle brackets are taken one at a time.
-/

namespace JavaFrontend.Lexeme

def isBlank (c : Char) : Bool := c == ' ' || c == '\t' || c == '\x0c'

def isIdentifierStart (c : Char) : Bool := Unicode.isAlphabetic c || c == '_' || c == '$'

def isIdentifierPart (c : Char) : Bool := isIdentifierStart c || Unicode.isNumeric c

/-- The kind of a word: a reserved word, a literal, or else an identifier. -/
def wordKind (word : String) : Kind :=
  match Kind.ofText? word with
  | some kind => if kind.isKeyword || kind.isLiteral then kind else .identifier
  | none => .identifier

/-- How far the text is from the end of a comment, and whether it has one. -/
def commentRest : List Char → Nat × Bool
  | [] => (0, false)
  | '*' :: '/' :: _ => (2, true)
  | _ :: rest =>
    let (length, closed) := commentRest rest
    (length + 1, closed)

/-- The comment that a slash before the text begins, if it does begin one. -/
def comment? : List Char → Option Lexeme
  | '/' :: rest => some (plain (1 + (rest.takeWhile (!isLineEnd ·)).length) .lineComment)
  | '*' :: rest =>
    match commentRest rest with
    | (length, true) => some (plain (1 + length) .blockComment)
    | (length, false) => some (fault (1 + length) .unterminatedComment)
  | _ => none

/-- One of two symbols, the longer one if `next` stands at the head of the text. -/
def pick (extra : Nat) (next : Char) (longer shorter : Kind) (text : List Char) : Lexeme :=
  if text.head? = some next then plain (extra + 1) longer else plain extra shorter

/-- The symbol that starts with `<`. -/
def openAngles : List Char → Lexeme
  | '<' :: text => pick 1 '=' .leftShiftAssign .leftShift text
  | text => pick 0 '=' .lessEqual .less text

/-- The symbol that starts with `>`, where no type arguments may close. -/
def closeAngles : List Char → Lexeme
  | '>' :: '>' :: text => pick 2 '=' .unsignedShiftAssign .unsignedShift text
  | '>' :: text => pick 1 '=' .rightShiftAssign .rightShift text
  | text => pick 0 '=' .greaterEqual .greater text

/-- The symbol that starts with `c`. -/
def symbol (inTypes : Bool) (c : Char) (text : List Char) : Lexeme :=
  match c with
  | '(' => plain 0 .leftParen
  | ')' => plain 0 .rightParen
  | '{' => plain 0 .leftBrace
  | '}' => plain 0 .rightBrace
  | '[' => plain 0 .leftBracket
  | ']' => plain 0 .rightBracket
  | ';' => plain 0 .semicolon
  | ',' => plain 0 .comma
  | '@' => plain 0 .at
  | '?' => plain 0 .question
  | '~' => plain 0 .tilde
  | '.' => if ['.', '.'].isPrefixOf text then plain 2 .ellipsis else plain 0 .dot
  | ':' => pick 0 ':' .doubleColon .colon text
  | '=' => pick 0 '=' .equalEqual .assign text
  | '!' => pick 0 '=' .notEqual .bang text
  | '*' => pick 0 '=' .starAssign .star text
  | '/' => pick 0 '=' .slashAssign .slash text
  | '%' => pick 0 '=' .percentAssign .percent text
  | '^' => pick 0 '=' .caretAssign .caret text
  | '<' => openAngles text
  | '>' => if inTypes then plain 0 .greater else closeAngles text
  | '&' =>
    if text.head? = some '&' then plain 1 .andAnd
    else pick 0 '=' .ampersandAssign .ampersand text
  | '|' => if text.head? = some '|' then plain 1 .orOr else pick 0 '=' .barAssign .bar text
  | '+' => if text.head? = some '+' then plain 1 .increment else pick 0 '=' .plusAssign .plus text
  | '-' =>
    if text.head? = some '-' then plain 1 .decrement
    else if text.head? = some '>' then plain 1 .arrow
    else pick 0 '=' .minusAssign .minus text
  | other => fault 0 (.unexpectedChar other)

/-- The lexeme that starts with `c`, the text after `c` being given. -/
def scan (inTypes : Bool) (c : Char) (text : List Char) : Lexeme :=
  if isBlank c then plain (text.takeWhile isBlank).length .whitespace
  else if c = '\n' then plain 0 .lineFeed
  else if c = '\r' then
    if text.head? == some '\n' then plain 1 .carriageReturnLineFeed else plain 0 .carriageReturn
  else if c = '\x1a' then plain 0 .substitute
  else if c = '\'' then charLiteral text
  else if c = '"' then stringLiteral text
  else if Digits.isDigit 10 c then numeric c text
  else if isIdentifierStart c then
    let more := text.takeWhile isIdentifierPart
    plain more.length (wordKind (String.ofList (c :: more)))
  else if c = '.' && text.head?.any (Digits.isDigit 10) then fractionPart 0 [] text
  else if c = '/' then (comment? text).getD (symbol inTypes c text)
  else symbol inTypes c text

end JavaFrontend.Lexeme
