import JavaFrontend.Unicode.Quoted

/-!
What can be wrong with a grammar, or with the text of one.
-/

namespace JavaFrontend

/-- What is wrong with the form of a grammar text. -/
inductive GrammarTextFault where
  | brokenDefine
  | unclosedQuote
  | emptyQuote
  | unexpectedChar (c : Char)
  | noRuleName
  | noDefine (rule : String)
  | unexpectedInput (rule : String)
  | unterminated (rule : String)
  | unclosedGroup (rule : String)
  | emptyGroup (rule : String)
deriving DecidableEq, Repr

namespace GrammarTextFault

def message : GrammarTextFault → String
  | .brokenDefine => "expected '::='"
  | .unclosedQuote => "unterminated quoted token"
  | .emptyQuote => "empty quoted token"
  | .unexpectedChar c => "unexpected character " ++ Unicode.quoted c
  | .noRuleName => "expected a rule name"
  | .noDefine rule => "expected '::=' after " ++ rule
  | .unexpectedInput rule => "unexpected input in rule " ++ rule
  | .unterminated rule => "rule " ++ rule ++ " is not terminated by ';'"
  | .unclosedGroup rule => "unclosed group in rule " ++ rule
  | .emptyGroup rule => "empty group in rule " ++ rule

end GrammarTextFault

/-- Why there is no grammar. -/
inductive GrammarError where
  | undefinedRule (rule name : String)
  | unreachableRule (rule : String)
  | emptyProduction (rule : String)
  | missingStart (rule : String)
  | unknownToken (rule token : String)
  | malformedText (line : Nat) (fault : GrammarTextFault)
deriving DecidableEq, Repr

namespace GrammarError

def message : GrammarError → String
  | .undefinedRule rule name => "Rule " ++ rule ++ " references undefined rule " ++ name
  | .unreachableRule rule => "Rule " ++ rule ++ " is not reachable from the start symbol"
  | .emptyProduction rule => "Rule " ++ rule ++ " has an empty production"
  | .missingStart rule => "Start rule " ++ rule ++ " is not defined"
  | .unknownToken rule token => "Unknown token " ++ token ++ " in rule " ++ rule
  | .malformedText line fault => "Grammar text, line " ++ toString line ++ ": " ++ fault.message

end GrammarError

end JavaFrontend
