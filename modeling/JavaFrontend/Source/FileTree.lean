import JavaFrontend.Source.Path

/-!
Trees of files and directories, and what is found in them under a path.
-/

namespace JavaFrontend

/-- A file with its contents, or a directory with what is in it by name. -/
inductive FileTree where
  | file (contents : ByteArray)
  | directory (entries : List (String × FileTree))

namespace FileTree

def entry? (name : String) : FileTree → Option FileTree
  | .file _ => none
  | .directory entries => entries.lookup name

/-- The tree with `new` in place of what it has under the name, or beside everything else. -/
def put (tree : FileTree) (name : String) (new : FileTree) : FileTree :=
  match tree with
  | .file _ => .directory [(name, new)]
  | .directory entries =>
    if entries.any (·.1 == name) then
      .directory (entries.map fun entry => if entry.1 == name then (name, new) else entry)
    else .directory (entries ++ [(name, new)])

/-- The tree with `new` under the names, one inside the other. Directories are made as needed. -/
def insert (tree new : FileTree) : List String → FileTree
  | [] => new
  | name :: names =>
    let inner := (tree.entry? name).getD (.directory [])
    tree.put name (inner.insert new names)

/-- What is found by following the segments of a path, where `around` are the directories that
lead to the tree, the innermost first. Nothing is found through a file. -/
def follow (around : List FileTree) (tree : FileTree) : List String → Option FileTree
  | [] => some tree
  | segment :: rest =>
    match tree with
    | .file _ => none
    | .directory _ =>
      match Path.component? segment with
      | none => follow around tree rest
      | some (.name name) =>
        match tree.entry? name with
        | some found => follow (tree :: around) found rest
        | none => none
      | some _ =>
        match around with
        | [] => none
        | outer :: around => follow around outer rest

/-- What the path leads to from the tree on. There is nothing above the tree. -/
def find? (tree : FileTree) (path : Path) : Option FileTree :=
  match path.segments with
  | [] | [""] => none
  | "" :: _ => none
  | segments => tree.follow [] segments

mutual

/-- The files in the tree with their names and their paths, if the tree itself is at the path. -/
def filesAt (path : Path) (name : String) : FileTree → List (String × Path × ByteArray)
  | .file contents => [(name, path, contents)]
  | .directory entries => filesIn path entries

def filesIn (path : Path) : List (String × FileTree) → List (String × Path × ByteArray)
  | [] => []
  | (name, tree) :: rest => tree.filesAt (path.join name) name ++ filesIn path rest

end

end FileTree

end JavaFrontend
