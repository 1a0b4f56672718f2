import JavaFrontend.Grammar.Error
import JavaFrontend.Unicode.Blank

/-!
The symbols of a grammar text. Blanks separate symbols, and a `#` makes the rest of its line a
comment.
-/

namespace JavaFrontend

/-- A symbol of a grammar text. -/
inductive GrammarLexeme where
  | name (text : String)
  | quoted (text : String)
  | define
  | bar
  | semicolon
  | openOptional
  | closeOptional
  | openRepeated
  | closeRepeated
deriving DecidableEq, Repr

namespace GrammarLexeme

def isNameStart (c : Char) : Bool := c.isAlpha || c == '_'

def isNamePart (c : Char) : Bool := c.isAlphanum || c == '_'

/-- The symbols that are single characters. -/
def ofChar? : Char → Option GrammarLexeme
  | '|' => some .bar
  | ';' => some .semicolon
  | '[' => some .openOptional
  | ']' => some .closeOptional
  | '\x7b' => some .openRepeated
  | '\x7d' => some .closeRepeated
  | _ => none

/-- A text in quotes, the opening quote being read, and how many characters it takes. It ends on
its line and is not empty. -/
def quotedRest (text : List Char) : Except GrammarTextFault (GrammarLexeme × Nat) :=
  let inner := text.takeWhile fun c => c != '\'' && c != '\n'
  if (text.drop inner.length).head? != some '\'' then .error .unclosedQuote
  else if inner.isEmpty then .error .emptyQuote
  else .ok (.quoted (String.ofList inner), inner.length + 1)

/-- The symbol that starts with `c`, and how many characters it takes of the text after `c`. -/
def scan (c : Char) (text : List Char) : Except GrammarTextFault (GrammarLexeme × Nat) :=
  match ofChar? c with
  | some lexeme => .ok (lexeme, 0)
  | none =>
    if c = ':' then
      if [':', '='].isPrefixOf text then .ok (.define, 2) else .error .brokenDefine
    else if c = '\'' then quotedRest text
    else if isNameStart c then
      let more := text.takeWhile isNamePart
      .ok (.name (String.ofList (c :: more)), more.length)
    else .error (.unexpectedChar c)

/-- The symbols of the text, each with the line it stands on. -/
def scanAll (line : Nat) : List Char → Except GrammarError (List (GrammarLexeme × Nat))
  | [] => .ok []
  | c :: text =>
    if c = '#' then scanAll line (text.dropWhile (· != '\n'))
    else if Unicode.isBlank c then scanAll (if c = '\n' then line + 1 else line) text
    else
      match scan c text with
      | .error fault => .error (.malformedText line fault)
      | .ok (lexeme, extra) => do
        let rest ← scanAll line (text.drop extra)
        return (lexeme, line) :: rest
termination_by text => text.length
decreasing_by
  all_goals simp only [List.length_cons, List.length_drop]
  all_goals first
    | omega
    | exact Nat.lt_succ_of_le (List.dropWhile_suffix _).length_le

/-- The number of the last line of a text. -/
def lastLine (text : List Char) : Nat := 1 + text.count '\n'

end GrammarLexeme

end JavaFrontend
