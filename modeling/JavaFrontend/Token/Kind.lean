/-!
The kinds of token: fixed spellings (separators, keywords, operators and the three literals that
look like keywords), and kinds whose spelling varies. The order of the constructors is the order
in which lists of expected kinds are shown.
-/

namespace JavaFrontend

/-- What sort of token a stretch of source text is. -/
inductive Kind where
  -- separators
  | leftParen | rightParen | leftBrace | rightBrace | leftBracket | rightBracket | semicolon
  | comma | dot | ellipsis | at | doubleColon
  -- keywords
  | abstractWord | assertWord | booleanWord | breakWord | byteWord | caseWord | catchWord
  | charWord | classWord | constWord | continueWord | defaultWord | doWord | doubleWord | elseWord
  | enumWord | extendsWord | finalWord | finallyWord | floatWord | forWord | ifWord | gotoWord
  | implementsWord | importWord | instanceofWord | intWord | interfaceWord | longWord | nativeWord
  | newWord | packageWord | privateWord | protectedWord | publicWord | returnWord | shortWord
  | staticWord | strictfpWord | superWord | switchWord | synchronizedWord | thisWord | throwWord
  | throwsWord | transientWord | tryWord | voidWord | volatileWord | whileWord
  -- operators
  | assign | greater | less | bang | tilde | question | colon | arrow | equalEqual | greaterEqual
  | lessEqual | notEqual | andAnd | orOr | increment | decrement | plus | minus | star | slash
  | ampersand | bar | caret | percent | leftShift | rightShift | unsignedShift | plusAssign
  | minusAssign | starAssign | slashAssign | ampersandAssign | barAssign | caretAssign
  | percentAssign | leftShiftAssign | rightShiftAssign | unsignedShiftAssign
  -- word literals
  | trueLiteral | falseLiteral | nullLiteral
  -- kinds with varying text
  | identifier | intLiteral | longLiteral | floatLiteral | doubleLiteral | charLiteral
  | stringLiteral | whitespace | lineFeed | carriageReturn | carriageReturnLineFeed | blockComment
  | lineComment | substitute | endOfInput | invalid
deriving DecidableEq, Repr, Inhabited

namespace Kind

/-- Every kind with one fixed spelling, in order. -/
def fixed : List Kind := [
  .leftParen, .rightParen, .leftBrace, .rightBrace, .leftBracket, .rightBracket, .semicolon,
  .comma, .dot, .ellipsis, .at, .doubleColon, .abstractWord, .assertWord, .booleanWord, .breakWord,
  .byteWord, .caseWord, .catchWord, .charWord, .classWord, .constWord, .continueWord, .defaultWord,
  .doWord, .doubleWord, .elseWord, .enumWord, .extendsWord, .finalWord, .finallyWord, .floatWord,
  .forWord, .ifWord, .gotoWord, .implementsWord, .importWord, .instanceofWord, .intWord,
  .interfaceWord, .longWord, .nativeWord, .newWord, .packageWord, .privateWord, .protectedWord,
  .publicWord, .returnWord, .shortWord, .staticWord, .strictfpWord, .superWord, .switchWord,
  .synchronizedWord, .thisWord, .throwWord, .throwsWord, .transientWord, .tryWord, .voidWord,
  .volatileWord, .whileWord, .assign, .greater, .less, .bang, .tilde, .question, .colon, .arrow,
  .equalEqual, .greaterEqual, .lessEqual, .notEqual, .andAnd, .orOr, .increment, .decrement, .plus,
  .minus, .star, .slash, .ampersand, .bar, .caret, .percent, .leftShift, .rightShift,
  .unsignedShift, .plusAssign, .minusAssign, .starAssign, .slashAssign, .ampersandAssign,
  .barAssign, .caretAssign, .percentAssign, .leftShiftAssign, .rightShiftAssign,
  .unsignedShiftAssign, .trueLiteral, .falseLiteral, .nullLiteral]

/-- Every kind that stands for many spellings, in order. -/
def varying : List Kind := [
  .identifier, .intLiteral, .longLiteral, .floatLiteral, .doubleLiteral, .charLiteral,
  .stringLiteral, .whitespace, .lineFeed, .carriageReturn, .carriageReturnLineFeed, .blockComment,
  .lineComment, .substitute, .endOfInput, .invalid]

/-- All kinds in order. -/
def all : List Kind := fixed ++ varying

/-- The place of a kind in `all`. -/
def rank (kind : Kind) : Nat := kind.ctorIdx

theorem all_getElem_rank (kind : Kind) : all[kind.rank]? = some kind := by
  cases kind <;> rfl

theorem mem_all (kind : Kind) : kind ∈ all :=
  List.mem_of_getElem? (all_getElem_rank kind)

/-- The spelling of a fixed kind, a description of any other. -/
def text : Kind → String
  | .leftParen => "("
  | .rightParen => ")"
  | .leftBrace => "\x7b"
  | .rightBrace => "\x7d"
  | .leftBracket => "["
  | .rightBracket => "]"
  | .semicolon => ";"
  | .comma => ","
  | .dot => "."
  | .ellipsis => "..."
  | .at => "@"
  | .doubleColon => "::"
  | .abstractWord => "abstract"
  | .assertWord => "assert"
  | .booleanWord => "boolean"
  | .breakWord => "break"
  | .byteWord => "byte"
  | .caseWord => "case"
  | .catchWord => "catch"
  | .charWord => "char"
  | .classWord => "class"
  | .constWord => "const"
  | .continueWord => "continue"
  | .defaultWord => "default"
  | .doWord => "do"
  | .doubleWord => "double"
  | .elseWord => "else"
  | .enumWord => "enum"
  | .extendsWord => "extends"
  | .finalWord => "final"
  | .finallyWord => "finally"
  | .floatWord => "float"
  | .forWord => "for"
  | .ifWord => "if"
  | .gotoWord => "goto"
  | .implementsWord => "implements"
  | .importWord => "import"
  | .instanceofWord => "instanceof"
  | .intWord => "int"
  | .interfaceWord => "interface"
  | .longWord => "long"
  | .nativeWord => "native"
  | .newWord => "new"
  | .packageWord => "package"
  | .privateWord => "private"
  | .protectedWord => "protected"
  | .publicWord => "public"
  | .returnWord => "return"
  | .shortWord => "short"
  | .staticWord => "static"
  | .strictfpWord => "strictfp"
  | .superWord => "super"
  | .switchWord => "switch"
  | .synchronizedWord => "synchronized"
  | .thisWord => "this"
  | .throwWord => "throw"
  | .throwsWord => "throws"
  | .transientWord => "transient"
  | .tryWord => "try"
  | .voidWord => "void"
  | .volatileWord => "volatile"
  | .whileWord => "while"
  | .assign => "="
  | .greater => ">"
  | .less => "<"
  | .bang => "!"
  | .tilde => "~"
  | .question => "?"
  | .colon => ":"
  | .arrow => "->"
  | .equalEqual => "=="
  | .greaterEqual => ">="
  | .lessEqual => "<="
  | .notEqual => "!="
  | .andAnd => "&&"
  | .orOr => "||"
  | .increment => "++"
  | .decrement => "--"
  | .plus => "+"
  | .minus => "-"
  | .star => "*"
  | .slash => "/"
  | .ampersand => "&"
  | .bar => "|"
  | .caret => "^"
  | .percent => "%"
  | .leftShift => "<<"
  | .rightShift => ">>"
  | .unsignedShift => ">>>"
  | .plusAssign => "+="
  | .minusAssign => "-="
  | .starAssign => "*="
  | .slashAssign => "/="
  | .ampersandAssign => "&="
  | .barAssign => "|="
  | .caretAssign => "^="
  | .percentAssign => "%="
  | .leftShiftAssign => "<<="
  | .rightShiftAssign => ">>="
  | .unsignedShiftAssign => ">>>="
  | .trueLiteral => "true"
  | .falseLiteral => "false"
  | .nullLiteral => "null"
  | .identifier => "identifier"
  | .intLiteral => "int literal"
  | .longLiteral => "long literal"
  | .floatLiteral => "float literal"
  | .doubleLiteral => "double literal"
  | .charLiteral => "character literal"
  | .stringLiteral => "string literal"
  | .whitespace => "whitespace"
  | .lineFeed => "line feed"
  | .carriageReturn => "carriage return"
  | .carriageReturnLineFeed => "carriage return line feed"
  | .blockComment => "multiline comment"
  | .lineComment => "comment"
  | .substitute => "substitute character"
  | .endOfInput => "end of input"
  | .invalid => "error"

/-- The upper-case name by which a grammar refers to a kind without fixed spelling. -/
def grammarName : Kind → Option String
  | .identifier => some "IDENTIFIER"
  | .intLiteral => some "INT_LITERAL"
  | .longLiteral => some "LONG_LITERAL"
  | .floatLiteral => some "FLOAT_LITERAL"
  | .doubleLiteral => some "DOUBLE_LITERAL"
  | .charLiteral => some "CHARACTER_LITERAL"
  | .stringLiteral => some "STRING_LITERAL"
  | .whitespace => some "WHITESPACE"
  | .lineFeed => some "LF"
  | .carriageReturn => some "CR"
  | .carriageReturnLineFeed => some "CRLF"
  | .blockComment => some "MULTILINE_COMMENT"
  | .lineComment => some "ONELINE_COMMENT"
  | .substitute => some "SUB"
  | .endOfInput => some "END_OF_INPUT"
  | .invalid => some "ERROR"
  | _ => none

/-- The kind spelled `text`. -/
def ofText? (text : String) : Option Kind := fixed.find? (·.text == text)

/-- The kind that grammars call `name`. -/
def ofGrammarName? (name : String) : Option Kind := varying.find? (·.grammarName == some name)

def isSeparator (kind : Kind) : Bool := kind.rank ≤ rank .doubleColon

/-- Reserved words; `true`, `false` and `null` are literals instead. -/
def isKeyword (kind : Kind) : Bool := rank .abstractWord ≤ kind.rank && kind.rank ≤ rank .whileWord

def isOperator (kind : Kind) : Bool :=
  rank .assign ≤ kind.rank && kind.rank ≤ rank .unsignedShiftAssign

/-- `=` and the compound assignment operators. -/
def isAssignment (kind : Kind) : Bool :=
  kind == .assign || (rank .plusAssign ≤ kind.rank && kind.rank ≤ rank .unsignedShiftAssign)

/-- `true`, `false` and `null`: literals with a fixed spelling. -/
def isWordLiteral : Kind → Bool
  | .trueLiteral | .falseLiteral | .nullLiteral => true
  | _ => false

/-- Literals whose token carries a decoded value. -/
def isValueLiteral : Kind → Bool
  | .intLiteral | .longLiteral | .floatLiteral | .doubleLiteral | .charLiteral
  | .stringLiteral => true
  | _ => false

def isLiteral (kind : Kind) : Bool := kind.isValueLiteral || kind.isWordLiteral

/-- Blanks, line ends, comments and the substitute character; a parser never sees them. -/
def isTrivia : Kind → Bool
  | .whitespace | .lineFeed | .carriageReturn | .carriageReturnLineFeed | .blockComment
  | .lineComment | .substitute => true
  | _ => false

/-- `>>` and `>>>`, which may turn out to be runs of closing angle brackets. -/
def isRightShift : Kind → Bool
  | .rightShift | .unsignedShift => true
  | _ => false

/-- How messages name a kind: fixed spellings in quotes, descriptions as they are. -/
def display (kind : Kind) : String :=
  if kind.grammarName.isSome then kind.text else "'" ++ kind.text ++ "'"

end Kind

end JavaFrontend
