import JavaFrontend.Proofs.Source.PathOrder
import JavaFrontend.Source.Discovery

/-!
What is discovered under some roots: every root that is a file, and every Java file in a directory
that is a root, however deep it is, in the order of their paths and each path once
(`Discovery.discovered_ofRoots`).
-/

namespace JavaFrontend

open Std

/-! ### Files in a tree -/

namespace FileTree

/-- The names lead to a file with the contents, each from a directory to one of its entries. -/
inductive Holds : FileTree → List String → ByteArray → Prop where
  | file (contents : ByteArray) : Holds (.file contents) [] contents
  | entry {name : String} {inner : FileTree} {entries : List (String × FileTree)}
      {names : List String} {contents : ByteArray} (among : (name, inner) ∈ entries)
      (below : Holds inner names contents) : Holds (.directory entries) (name :: names) contents

variable {place : Path} {last : String} {contents : ByteArray}

mutual

theorem mem_filesAt (path : Path) (name : String) : (tree : FileTree) →
    ((last, place, contents) ∈ tree.filesAt path name ↔
      ∃ names, Holds tree names contents ∧ place = names.foldl Path.join path ∧
        (name :: names).getLast? = some last)
  | .file own => by
    rw [filesAt, List.mem_singleton]
    constructor
    · rintro ⟨⟩
      exact ⟨[], .file contents, rfl, rfl⟩
    · rintro ⟨names, holds, rfl, ends⟩
      cases holds
      cases ends
      rfl
  | .directory entries => by
    rw [filesAt, mem_filesIn path entries]
    constructor
    · rintro ⟨names, holds, rfl, ends⟩
      cases holds with
      | entry among below =>
        exact ⟨_, .entry among below, rfl, List.getLast?_cons_cons.trans ends⟩
    · rintro ⟨names, holds, rfl, ends⟩
      cases holds with
      | entry among below =>
        exact ⟨_, .entry among below, rfl, List.getLast?_cons_cons.symm.trans ends⟩

theorem mem_filesIn (path : Path) : (entries : List (String × FileTree)) →
    ((last, place, contents) ∈ filesIn path entries ↔
      ∃ names, Holds (.directory entries) names contents ∧ place = names.foldl Path.join path ∧
        names.getLast? = some last)
  | [] => by
    rw [filesIn]
    constructor
    · exact fun none => absurd none List.not_mem_nil
    · rintro ⟨names, holds, -, -⟩
      cases holds with
      | entry among => exact absurd among List.not_mem_nil
  | (first, inner) :: rest => by
    rw [filesIn, List.mem_append, mem_filesAt (path.join first) first inner, mem_filesIn path rest]
    constructor
    · rintro (⟨names, below, rfl, ends⟩ | ⟨names, holds, rfl, ends⟩)
      · exact ⟨first :: names, .entry List.mem_cons_self below, rfl, ends⟩
      · cases holds with
        | entry among below => exact ⟨_, .entry (List.mem_cons_of_mem _ among) below, rfl, ends⟩
    · rintro ⟨names, holds, rfl, ends⟩
      cases holds with
      | entry among below =>
        rcases List.mem_cons.mp among with same | among
        · cases same
          exact .inl ⟨_, below, rfl, ends⟩
        · exact .inr ⟨_, .entry among below, rfl, ends⟩

end

end FileTree

namespace Discovery

variable {tree : FileTree} {root : Path} {roots : List Path} {files : List FoundFile}
  {file : FoundFile}

/-- A file counts if it is one of the roots, or if it is a Java file somewhere in a directory that
is one. -/
inductive Counts (tree : FileTree) (roots : List Path) : FoundFile → Prop where
  | given {root : Path} {contents : ByteArray} (among : root ∈ roots)
      (found : tree.find? root = some (.file contents)) : Counts tree roots ⟨root, contents⟩
  | inside {root : Path} {entries : List (String × FileTree)} {names : List String} {name : String}
      {contents : ByteArray} (among : root ∈ roots)
      (found : tree.find? root = some (.directory entries))
      (holds : FileTree.Holds (.directory entries) names contents)
      (ends : names.getLast? = some name) (java : extension? name = some "java") :
      Counts tree roots ⟨names.foldl Path.join root, contents⟩

/-- The files are all that count, in the order of their paths and each path once. -/
structure Discovered (tree : FileTree) (roots : List Path) (files : List FoundFile) : Prop where
  ordered : files.Pairwise fun a b => a.path.compare b.path = .lt
  counts : ∀ file ∈ files, Counts tree roots file
  all : ∀ file, Counts tree roots file →
    ∃ same ∈ files, same.path.components = file.path.components

theorem under_of_file {contents : ByteArray} (found : tree.find? root = some (.file contents)) :
    under tree root = some [⟨root, contents⟩] := by
  rw [under, found]

theorem exists_under_of_directory {entries : List (String × FileTree)}
    (found : tree.find? root = some (.directory entries)) :
    ∃ files, under tree root = some files ∧ ∀ file, file ∈ files ↔ ∃ names name,
      FileTree.Holds (.directory entries) names file.contents ∧ names.getLast? = some name ∧
        extension? name = some "java" ∧ file.path = names.foldl Path.join root := by
  refine ⟨_, by rw [under, found], fun file => ?_⟩
  rw [List.mem_map]
  constructor
  · rintro ⟨⟨name, path, contents⟩, listed, rfl⟩
    obtain ⟨among, java⟩ := List.mem_filter.mp listed
    obtain ⟨names, holds, rfl, ends⟩ := (FileTree.mem_filesIn root entries).mp among
    exact ⟨names, name, holds, ends, by simpa using java, rfl⟩
  · rintro ⟨names, name, holds, ends, java, path⟩
    refine ⟨(name, file.path, file.contents), List.mem_filter.mpr ⟨?_, by simpa using java⟩, rfl⟩
    exact (FileTree.mem_filesIn root entries).mpr ⟨names, holds, path, ends⟩

theorem mem_flatten_under_iff :
    file ∈ (roots.filterMap (under tree)).flatten ↔ Counts tree roots file := by
  rw [List.mem_flatten]
  constructor
  · rintro ⟨files, listed, member⟩
    obtain ⟨root, among, found⟩ := List.mem_filterMap.mp listed
    cases leads : tree.find? root with
    | none =>
      rw [under, leads] at found
      cases found
    | some inner =>
      cases inner with
      | file contents =>
        rw [under_of_file leads] at found
        cases found
        obtain rfl := List.mem_singleton.mp member
        exact .given among leads
      | directory entries =>
        obtain ⟨all, same, mem_iff⟩ := exists_under_of_directory leads
        obtain rfl := Option.some.inj (same.symm.trans found)
        obtain ⟨names, name, holds, ends, java, path⟩ := (mem_iff file).mp member
        obtain ⟨own, contents⟩ := file
        cases path
        exact .inside among leads holds ends java
  · intro counts
    cases counts with
    | given among leads =>
      exact ⟨_, List.mem_filterMap.mpr ⟨_, among, under_of_file leads⟩, List.mem_cons_self⟩
    | inside among leads holds ends java =>
      obtain ⟨all, same, mem_iff⟩ := exists_under_of_directory leads
      exact ⟨all, List.mem_filterMap.mpr ⟨_, among, same⟩,
        (mem_iff _).mpr ⟨_, _, holds, ends, java, rfl⟩⟩

/-! ### Repeated paths -/

theorem sublist_dropRepeated (files : List FoundFile) : (dropRepeated files).Sublist files := by
  fun_induction dropRepeated files with
  | case1 first second rest same ih =>
    exact ih.trans (.cons_cons first (.cons second (List.Sublist.refl rest)))
  | case2 first second rest other ih => exact ih.cons_cons first
  | case3 files short => exact List.Sublist.refl files

theorem exists_dropRepeated (member : file ∈ files) :
    ∃ same ∈ dropRepeated files, same.path.components = file.path.components := by
  fun_induction dropRepeated files generalizing file with
  | case1 first second rest same ih =>
    rcases List.mem_cons.mp member with rfl | later
    · exact ih List.mem_cons_self
    · rcases List.mem_cons.mp later with rfl | later
      · obtain ⟨kept, among, equal⟩ := ih List.mem_cons_self
        exact ⟨kept, among, equal.trans same⟩
      · exact ih (List.mem_cons_of_mem _ later)
  | case2 first second rest other ih =>
    rcases List.mem_cons.mp member with rfl | later
    · exact ⟨file, List.mem_cons_self, rfl⟩
    · obtain ⟨kept, among, equal⟩ := ih later
      exact ⟨kept, List.mem_cons_of_mem _ among, equal⟩
  | case3 files short => exact ⟨file, member, rfl⟩

/-- Of files in the order of their paths, those that are left are in a strict order. -/
theorem ordered_dropRepeated (sorted : files.Pairwise fun a b => (a.path.compare b.path).isLE) :
    (dropRepeated files).Pairwise fun a b => a.path.compare b.path = .lt := by
  fun_induction dropRepeated files with
  | case1 first second rest same ih =>
    apply ih
    exact sorted.sublist (.cons_cons first (.cons second (List.Sublist.refl rest)))
  | case2 first second rest other ih =>
    obtain ⟨least, sorted⟩ := List.pairwise_cons.mp sorted
    refine List.pairwise_cons.mpr ⟨fun later member => ?_, ih sorted⟩
    have before : first.path.compare second.path = .lt := by
      rcases Ordering.isLE_iff_eq_lt_or_eq_eq.mp (least second List.mem_cons_self) with less | equal
      · exact less
      · exact absurd (Path.compare_eq_iff.mp equal) other
    have behind : (second.path.compare later.path).isLE := by
      rcases List.mem_cons.mp ((sublist_dropRepeated _).subset member) with rfl | further
      · exact ReflCmp.isLE_rfl
      · exact (List.pairwise_cons.mp sorted).1 later further
    exact TransCmp.lt_of_lt_of_isLE before behind
  | case3 files short =>
    match files with
    | [] => exact .nil
    | [only] => exact List.pairwise_singleton _ only
    | first :: second :: rest => exact absurd rfl (short first second rest)

/-! ### All roots -/

/-- The paths that lead nowhere, each as often as it is given. -/
theorem missing_ofRoots (tree : FileTree) (roots : List Path) :
    (ofRoots tree roots).missing = roots.filter fun root => (tree.find? root).isNone := by
  apply List.filter_congr
  intro root _
  cases leads : tree.find? root with
  | none =>
    rw [under, leads]
    rfl
  | some inner =>
    cases inner with
    | file =>
      rw [under_of_file leads]
      rfl
    | directory =>
      obtain ⟨all, same, -⟩ := exists_under_of_directory leads
      rw [same]
      rfl

theorem discovered_ofRoots (tree : FileTree) (roots : List Path) :
    Discovered tree roots (ofRoots tree roots).files := by
  have mem_iff (file : FoundFile) :
      file ∈ ((roots.filterMap (under tree)).flatten.mergeSort
        fun a b => (a.path.compare b.path).isLE) ↔ Counts tree roots file :=
    List.mem_mergeSort.trans mem_flatten_under_iff
  refine ⟨?_, fun file member => ?_, fun file counts => ?_⟩
  · apply ordered_dropRepeated
    apply List.pairwise_mergeSort
    · intro a b c
      exact isLE_trans Path.compare _ _ _
    · intro a b
      exact isLE_total Path.compare _ _
  · exact (mem_iff file).mp ((sublist_dropRepeated _).subset member)
  · exact exists_dropRepeated ((mem_iff file).mpr counts)

end Discovery

end JavaFrontend
