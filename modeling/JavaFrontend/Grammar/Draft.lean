import JavaFrontend.Grammar.Expansion
import JavaFrontend.Grammar.Validity

/-!
Drafts of grammars: alternatives with groups, from which a grammar is built.
-/

namespace JavaFrontend

/-- What a grammar is built from. -/
structure GrammarDraft where
  alternatives : List Alternative := []
  /-- The start, unless it is the name of the first alternative. -/
  start : Option String := none
  /-- Whether names that cannot be reached are left out instead of refused. -/
  prune : Bool := false

namespace GrammarDraft

def addRule (draft : GrammarDraft) (name : String) (elements : List Element) : GrammarDraft :=
  { draft with alternatives := draft.alternatives ++ [⟨name, elements⟩] }

def addAll (draft : GrammarDraft) (alternatives : List Alternative) : GrammarDraft :=
  { draft with alternatives := draft.alternatives ++ alternatives }

/-- Every name that the draft or its expansion mentions. -/
def mentioned (draft : GrammarDraft) (expansion : Expansion) (start : String) : List String :=
  (draft.alternatives.flatMap fun alternative =>
    alternative.name :: Element.bodyNames alternative.elements)
  ++ expansion.repetitions.map (·.2) ++ [start]

/-- Numbers the rules of the collections through, from `first` on. -/
def number (first : Nat) : List (String × List Production) → List Collection
  | [] => []
  | (name, productions) :: rest =>
    { name, first, productions } :: number (first + productions.length) rest

/-- The productions whose names the start can reach. -/
def reachableOnly (start : String) (productions : List (String × List Production)) :
    List (String × List Production) :=
  let reached := Reachability.reachable start productions
  productions.filter fun (name, _) => reached.contains name

/-- The grammar that the draft describes, if it is fit for use. -/
def build (draft : GrammarDraft) : Except GrammarError Grammar := do
  let some start := draft.start <|> (draft.alternatives.head?.map (·.name))
    | throw (.missingStart "")
  let expansion ← Expansion.ofAlternatives? draft.alternatives
  let productions :=
    if draft.prune then reachableOnly start expansion.productions else expansion.productions
  let grammar : Grammar :=
    { start, collections := number 0 productions,
      names := draft.mentioned expansion start }
  match grammar.fault? with
  | some fault => throw fault
  | none => return grammar

end GrammarDraft

end JavaFrontend
