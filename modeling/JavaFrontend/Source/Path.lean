/-!
Paths of files. A path is kept as it is written, but compared by its components, so that repeated
slashes and single dots inside of it do not matter.
-/

namespace JavaFrontend

/-- A step of a path. -/
inductive PathComponent where
  | root
  /-- A single dot in front of a path. -/
  | current
  /-- Two dots. -/
  | parent
  | name (name : String)
deriving DecidableEq, Repr

namespace PathComponent

/-- The root comes first, then dots, then names. -/
def rank : PathComponent → Nat
  | .root => 0
  | .current => 1
  | .parent => 2
  | .name _ => 3

/-- Components are ordered by their ranks, and names by their characters. -/
protected def compare : PathComponent → PathComponent → Ordering
  | .name a, .name b => compareOfLessAndEq a b
  | a, b => Ord.compare a.rank b.rank

end PathComponent

/-- A path as it is written. -/
structure Path where
  text : String
deriving DecidableEq, Repr

namespace Path

/-- What stands between the slashes. -/
def segments (path : Path) : List String := path.text.splitOn "/"

/-- The component that a segment behind the first stands for, if any. -/
def component? (segment : String) : Option PathComponent :=
  if segment = "" || segment = "." then none
  else if segment = ".." then some .parent
  else some (.name segment)

/-- The steps of the path, without those that lead nowhere. -/
def components (path : Path) : List PathComponent :=
  match path.segments with
  | [] | [""] => []
  | first :: rest =>
    let start :=
      if first = "" then some .root
      else if first = "." then some .current
      else component? first
    start.toList ++ rest.filterMap component?

/-- Paths are ordered by their components, as words are by their letters. -/
def compareComponents : List PathComponent → List PathComponent → Ordering
  | [], [] => .eq
  | [], _ :: _ => .lt
  | _ :: _, [] => .gt
  | a :: as, b :: bs => (a.compare b).then (compareComponents as bs)

protected def compare (a b : Path) : Ordering := compareComponents a.components b.components

/-- The path of what has the name inside of the path. -/
def join (path : Path) (name : String) : Path :=
  if path.text = "" || path.text.endsWith "/" then ⟨path.text ++ name⟩
  else ⟨path.text ++ "/" ++ name⟩

end Path

/-- What stands behind the last dot of a file name, unless the name has no dot but at its start. -/
def extension? (fileName : String) : Option String :=
  match (fileName.splitOn ".").reverse with
  | last :: before :: more => if more.isEmpty && before = "" then none else some last
  | _ => none

end JavaFrontend
