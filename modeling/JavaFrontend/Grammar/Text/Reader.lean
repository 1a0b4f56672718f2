import JavaFrontend.Grammar.Element
import JavaFrontend.Grammar.Text.Lexeme

/-!
Grammar texts: definitions `Name ::= alternative | alternative ;` with optional groups in brackets
and repeated groups in braces. A quoted text stands for the token with that spelling, a name in
capitals for one of the other kinds of token, and any other name for a rule.
-/

namespace JavaFrontend.GrammarText

/-- Whether a name stands for a kind of token: capitals, digits and underscores only, with a
capital among them. -/
def isTokenName (name : String) : Bool :=
  name.toList.any Char.isUpper &&
    name.toList.all fun c => c.isUpper || c.isDigit || c == '_'

/-- A group that is not closed yet: its sort, its line, and the elements that stand before it. -/
structure OpenGroup where
  isRepeated : Bool
  line : Nat
  before : List Element

namespace OpenGroup

def closing (group : OpenGroup) : GrammarLexeme :=
  if group.isRepeated then .closeRepeated else .closeOptional

def close (group : OpenGroup) (body : List Element) : Element :=
  if group.isRepeated then .repeated body else .optional body

end OpenGroup

/-- The element that a name or a quoted text is. -/
def element? (rule : String) : GrammarLexeme → Except GrammarError (Option Element)
  | .name name =>
    if isTokenName name then
      match Kind.ofGrammarName? name with
      | some kind => .ok (some (.token kind))
      | none => .error (.unknownToken rule name)
    else .ok (some (.rule name))
  | .quoted text =>
    match Kind.ofText? text with
    | some kind => .ok (some (.token kind))
    | none => .error (.unknownToken rule ("'" ++ text ++ "'"))
  | _ => .ok none

mutual

/-- The definitions that the symbols make up. -/
def definitions (lastLine : Nat) :
    List (GrammarLexeme × Nat) → Except GrammarError (List Alternative)
  | [] => .ok []
  | (.name rule, _) :: (.define, _) :: rest => alternatives lastLine rule [] [] rest
  | (.name rule, line) :: _ => .error (.malformedText line (.noDefine rule))
  | (_, line) :: _ => .error (.malformedText line .noRuleName)

/-- The alternatives of a rule, and the definitions after it. Inside `groups`, innermost first, the
`elements` read last come first. -/
def alternatives (lastLine : Nat) (rule : String) (groups : List OpenGroup)
    (elements : List Element) :
    List (GrammarLexeme × Nat) → Except GrammarError (List Alternative)
  | [] =>
    match groups with
    | group :: _ => .error (.malformedText group.line (.unclosedGroup rule))
    | [] => .error (.malformedText lastLine (.unterminated rule))
  | (lexeme, line) :: rest => do
    match ← element? rule lexeme with
    | some element => alternatives lastLine rule groups (element :: elements) rest
    | none =>
      match lexeme, groups with
      | .openOptional, _ => alternatives lastLine rule (⟨false, line, elements⟩ :: groups) [] rest
      | .openRepeated, _ => alternatives lastLine rule (⟨true, line, elements⟩ :: groups) [] rest
      | .bar, [] => do
        let others ← alternatives lastLine rule [] [] rest
        return ⟨rule, elements.reverse⟩ :: others
      | .semicolon, [] => do
        let others ← definitions lastLine rest
        return ⟨rule, elements.reverse⟩ :: others
      | _, group :: groups =>
        if lexeme = group.closing then
          if elements.isEmpty then .error (.malformedText group.line (.emptyGroup rule))
          else
            alternatives lastLine rule groups (group.close elements.reverse :: group.before) rest
        else .error (.malformedText line (.unexpectedInput rule))
      | _, [] => .error (.malformedText line (.unexpectedInput rule))

end

/-- The alternatives that the text defines, in order. -/
def read (text : String) : Except GrammarError (List Alternative) := do
  let lexemes ← GrammarLexeme.scanAll 1 text.toList
  definitions (GrammarLexeme.lastLine text.toList) lexemes

end JavaFrontend.GrammarText
