import JavaFrontend.Text.Position

/-!
Identifiers and names of identifiers with dots between them.
-/

namespace JavaFrontend.Java

/-- An identifier and where it is written. -/
structure Identifier where
  name : String
  position : Position
deriving DecidableEq, Repr

/-- Identifiers with dots between them: `a.b.c`. -/
structure QualifiedName where
  first : Identifier
  rest : List Identifier
deriving DecidableEq, Repr

namespace QualifiedName

def ofIdentifier (identifier : Identifier) : QualifiedName := ⟨identifier, []⟩

def parts (name : QualifiedName) : List Identifier := name.first :: name.rest

def position (name : QualifiedName) : Position := name.first.position

/-- The identifier after the last dot. -/
def last (name : QualifiedName) : Identifier := name.rest.getLastD name.first

/-- What stands before the last dot, if there is one. -/
def qualifier? (name : QualifiedName) : Option QualifiedName :=
  match name.rest with
  | [] => none
  | next :: rest => some ⟨name.first, (next :: rest).dropLast⟩

def display (name : QualifiedName) : String := ".".intercalate (name.parts.map (·.name))

theorem qualifier?_append_last (name : QualifiedName) :
    (name.qualifier?.elim [] parts) ++ [name.last] = name.parts := by
  obtain ⟨first, rest⟩ := name
  cases rest with
  | nil => rfl
  | cons next rest =>
    simp [qualifier?, last, parts, List.getLastD_eq_getLast?, List.getLast?_eq_some_getLast,
      List.dropLast_concat_getLast]

end QualifiedName

end JavaFrontend.Java
