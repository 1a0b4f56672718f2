import JavaFrontend.Java.Outline

/-!
Walks over trees. A walk visits declarations, members, blocks, statements, expressions, types and
annotations, each before what is in it. At each visit the visitor says whether to go on into what
was visited, to leave that out, or to end the walk.
-/

namespace JavaFrontend.Java

/-- What sort of tree is visited. The creation of an object is visited as an expression first and
then once more as a creation. -/
inductive VisitKind where
  | unit | declaration | constant | body | member | block | statement | expression | creation
  | type | annotationUse
deriving DecidableEq, Repr

structure Visit where
  kind : VisitKind
  subtree : Subtree

/-- How to go on after a visit. -/
inductive Step where
  /-- Into what was visited. -/
  | descend
  /-- Past what was visited. -/
  | skip
  /-- Not at all. -/
  | stop
deriving DecidableEq, Repr

namespace Subtree

def isCreation : Subtree → Bool
  | ⟨.creation ..⟩ => true
  | _ => false

/-- As what a walk visits the tree, one visit inside the other. -/
def visitKinds (subtree : Subtree) : List VisitKind :=
  match subtree.category with
  | .unit => [.unit]
  | .typeDeclaration => [.declaration]
  | .enumConstant => [.constant]
  | .classBody => [.body]
  | .member => [.member]
  | .block => [.block]
  | .stmt => [.statement]
  | .expr => if subtree.isCreation then [.expression, .creation] else [.expression]
  | .type => [.type]
  | .annotationUse => [.annotationUse]
  | _ => []

def visits (subtree : Subtree) : List Visit := subtree.visitKinds.map (⟨·, subtree⟩)

end Subtree

namespace Outline

variable {σ : Type}

/-- Pays visits that are one inside the other, and goes on with `inside` if the visitor wants to go
into the innermost. Says whether the walk was ended. -/
def enterAll (visitor : Visit → σ → Step × σ) (inside : σ → Bool × σ) :
    List Visit → σ → Bool × σ
  | [], state => inside state
  | visit :: visits, state =>
    match visitor visit state with
    | (.descend, state) => enterAll visitor inside visits state
    | (.skip, state) => (false, state)
    | (.stop, state) => (true, state)

mutual

/-- A walk over the outline, which may change a state at each visit. Says whether it was ended. -/
def walk (visitor : Visit → σ → Step × σ) : Outline → σ → Bool × σ
  | .node root parts, state =>
    enterAll visitor (fun state => walkAll visitor parts state) root.visits state

def walkAll (visitor : Visit → σ → Step × σ) : List Outline → σ → Bool × σ
  | [], state => (false, state)
  | part :: rest, state =>
    match walk visitor part state with
    | (true, state) => (true, state)
    | (false, state) => walkAll visitor rest state

end

/-- A walk over the outline that skips the visits of some kinds and ends with visit number
`stopAt`, counted from one: whether it was ended and the visits it paid. -/
def record (skips : VisitKind → Bool) (stopAt : Option Nat) (outline : Outline) :
    Bool × List Visit :=
  let visitor (visit : Visit) (paid : List Visit) : Step × List Visit :=
    (if stopAt = some (paid.length + 1) then .stop
      else if skips visit.kind then .skip
      else .descend,
     visit :: paid)
  let (stopped, paid) := outline.walk visitor []
  (stopped, paid.reverse)

end Outline

end JavaFrontend.Java
