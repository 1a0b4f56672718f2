import JavaFrontend.Source.FileTree

/-!
The source files of a compilation. They are found under paths that are given: a path to a file is
taken as it is, and in a directory all Java files count, however deep they are.
-/

namespace JavaFrontend

/-- A file and what is in it. -/
structure FoundFile where
  path : Path
  contents : ByteArray

/-- What was found under some paths. -/
structure Discovery where
  /-- The files by their paths, each once. -/
  files : List FoundFile
  /-- The paths that lead nowhere. -/
  missing : List Path

namespace Discovery

/-- The files that count under one path. -/
def under (tree : FileTree) (root : Path) : Option (List FoundFile) :=
  match tree.find? root with
  | none => none
  | some (.file contents) => some [⟨root, contents⟩]
  | some (.directory entries) =>
    let files := FileTree.filesIn root entries
    some ((files.filter fun (name, _, _) => extension? name == some "java").map
      fun (_, path, contents) => ⟨path, contents⟩)

/-- Drops every file that has the path of the one before it. -/
def dropRepeated : List FoundFile → List FoundFile
  | first :: second :: rest =>
    if first.path.components = second.path.components then dropRepeated (first :: rest)
    else first :: dropRepeated (second :: rest)
  | files => files
termination_by files => files.length

/-- What is found under the roots. -/
def ofRoots (tree : FileTree) (roots : List Path) : Discovery :=
  let files := (roots.filterMap (under tree)).flatten
  { files := dropRepeated (files.mergeSort fun a b => (a.path.compare b.path).isLE)
    missing := roots.filter fun root => (under tree root).isNone }

end Discovery

end JavaFrontend
