import JavaFrontend.Proofs.Java.ClassFrames

/-!
Names of classes by the places where the classes are. A place is the way to it: which part of the
source file, which part of that one, and so on. A class encloses what is at places that go on from
its own. The classes in a source file are named in the order of their places, and each by what it is
called and by the innermost class that encloses it (`classNames_numbered`).
-/

namespace JavaFrontend.Java

/-! ### Places -/

/-- The class at the place among the parts of `owner`. -/
def classAt? (owner : Subtree) (parts : List Outline) : List Nat → Option ClassHeader
  | [] => none
  | index :: place =>
    parts[index]?.bind fun part =>
      if owner.hidesClasses part.root then none
      else if place.isEmpty then owner.classHeader? part.root
      else classAt? part.root part.parts place

/-- A class in a source file. -/
structure ClassSite where
  place : List Nat
  header : ClassHeader
  /-- Where the class around it is, if there is one. -/
  around : Option (List Nat)
deriving DecidableEq, Repr

/-- The classes in the parts of what is at the place, from the part with the index on. -/
def classSites (owner : Subtree) (place : List Nat) (around : Option (List Nat)) (index : Nat) :
    List Outline → List ClassSite
  | [] => []
  | .node root parts :: rest =>
    let here := place ++ [index]
    let later := classSites owner place around (index + 1) rest
    if owner.hidesClasses root then later
    else
      match owner.classHeader? root with
      | some header => ⟨here, header, around⟩ :: classSites root here (some here) 0 parts ++ later
      | none => classSites root here around 0 parts ++ later

/-- The classes in a source file. -/
def CompilationUnit.classSites (unit : CompilationUnit) : List ClassSite :=
  Java.classSites ⟨unit⟩ [] none 0 unit.parts

/-- The second class is inside the first one. -/
def ClassSite.Encloses (outer inner : ClassSite) : Prop :=
  outer.place <+: inner.place ∧ outer.place ≠ inner.place

variable {owner : Subtree} {place : List Nat} {around : Option (List Nat)} {index i j : Nat}
  {parts : List Outline} {site outer other : ClassSite} {header : ClassHeader}
  {first second : List Nat}

theorem place_of_mem (member : site ∈ classSites owner place around index parts) :
    ∃ i more, index ≤ i ∧ site.place = place ++ i :: more := by
  fun_induction classSites owner place around index parts with
  | case1 => cases member
  | case2 owner place around index root parts rest later hidden ihRest =>
    obtain ⟨i, more, above, same⟩ := ihRest member
    exact ⟨i, more, by omega, same⟩
  | case3 owner place around index root parts rest here later seen header found ihRest ihParts =>
    rcases List.mem_append.mp member with member | member
    · rcases List.mem_cons.mp member with rfl | member
      · exact ⟨index, [], Nat.le_refl _, rfl⟩
      · obtain ⟨i, more, -, same⟩ := ihParts member
        exact ⟨index, i :: more, Nat.le_refl _, by simp [same, here]⟩
    · obtain ⟨i, more, above, same⟩ := ihRest member
      exact ⟨i, more, by omega, same⟩
  | case4 owner place around index root parts rest here later seen none ihRest ihParts =>
    rcases List.mem_append.mp member with member | member
    · obtain ⟨i, more, -, same⟩ := ihParts member
      exact ⟨index, i :: more, Nat.le_refl _, by simp [same, here]⟩
    · obtain ⟨i, more, above, same⟩ := ihRest member
      exact ⟨i, more, by omega, same⟩

/-- Classes in the parts of what is at a place are inside it. -/
theorem inside_of_mem (member : site ∈ classSites owner place around index parts) :
    place <+: site.place ∧ place ≠ site.place := by
  obtain ⟨i, more, -, same⟩ := place_of_mem member
  rw [same]
  exact ⟨List.prefix_append _ _, by simp⟩

/-- The places of a class and of those in its parts go on from that of the class. -/
theorem under_of_mem {here : List Nat}
    (member : site ∈ (⟨here, header, around⟩ : ClassSite) ::
      classSites owner here (some here) 0 parts) : here <+: site.place := by
  rcases List.mem_cons.mp member with rfl | inside
  · exact List.prefix_rfl
  · exact (inside_of_mem inside).1

/-- A place in one part and one in a later part are apart, and stand in this order. -/
theorem apart_of_mem (under : place ++ [index] <+: first)
    (member : site ∈ classSites owner place around (index + 1) parts) :
    ¬ first <+: site.place ∧ ¬ site.place <+: first ∧ first < site.place := by
  obtain ⟨rest, rfl⟩ := under
  obtain ⟨i, more, above, same⟩ := place_of_mem member
  rw [same, List.append_assoc, List.singleton_append, List.prefix_append_right_inj,
    List.prefix_append_right_inj, List.cons_prefix_cons, List.cons_prefix_cons]
  refine ⟨fun same => by omega, fun same => by omega, List.append_left_lt ?_⟩
  exact List.cons_lt_cons_iff.mpr (.inl above)

/-- The classes are listed in the order of their places. -/
theorem pairwise_classSites : (classSites owner place around index parts).Pairwise fun a b =>
    a.place < b.place := by
  fun_induction classSites owner place around index parts with
  | case1 => exact .nil
  | case2 owner place around index root parts rest later hidden ihRest => exact ihRest
  | case3 owner place around index root parts rest here later seen header found ihRest ihParts =>
    refine List.pairwise_append.mpr ⟨List.pairwise_cons.mpr ⟨?_, ihParts⟩, ihRest, ?_⟩
    · intro inner member
      obtain ⟨i, more, -, same⟩ := place_of_mem member
      have less : here ++ [] < here ++ i :: more := List.append_left_lt (List.nil_lt_cons ..)
      rwa [List.append_nil, ← same] at less
    · intro first among second member
      exact (apart_of_mem (under_of_mem among) member).2.2
  | case4 owner place around index root parts rest here later seen none ihRest ihParts =>
    exact List.pairwise_append.mpr ⟨ihParts, ihRest, fun first among second member =>
      (apart_of_mem (inside_of_mem among).1 member).2.2⟩

@[simp] theorem classAt?_here (owner : Subtree) (parts : List Outline) :
    classAt? owner parts [] = none := rfl

@[simp] theorem classAt?_nil (owner : Subtree) (place : List Nat) :
    classAt? owner [] place = none := by
  cases place <;> rfl

/-- A place among the parts is one in the first of them or in one behind it. -/
theorem classAt?_cons_iff {root : Subtree} {rest : List Outline} {more : List Nat} :
    index ≤ j ∧ classAt? owner (.node root parts :: rest) ((j - index) :: more) = some header ↔
      (j = index ∧ owner.hidesClasses root = false ∧
        (if more.isEmpty then owner.classHeader? root else classAt? root parts more) =
          some header) ∨
      (index + 1 ≤ j ∧ classAt? owner rest ((j - (index + 1)) :: more) = some header) := by
  rcases Nat.lt_trichotomy j index with before | rfl | behind
  · simp only [Nat.not_le_of_lt before, Nat.ne_of_lt before, false_and, false_or, false_iff]
    omega
  · cases hidden : owner.hidesClasses root <;> simp [classAt?, Outline.root, Outline.parts, hidden]
  · obtain ⟨i, rfl⟩ := Nat.exists_eq_add_of_lt behind
    have first : index + i + 1 - index = i + 1 := by omega
    have later : index + i + 1 - (index + 1) = i := by omega
    have apart : index + i + 1 ≠ index := by omega
    simp [first, later, apart, classAt?]
    omega

/-- The classes in one part, by their places among all. -/
theorem exists_inside_iff {root : Subtree} {more : List Nat}
    (within : ∀ i more, (∃ site ∈ classSites root (place ++ [index]) around 0 parts,
      site.place = place ++ [index] ++ i :: more ∧ site.header = header) ↔
        0 ≤ i ∧ classAt? root parts ((i - 0) :: more) = some header) :
    (∃ site ∈ classSites root (place ++ [index]) around 0 parts,
      site.place = place ++ j :: more ∧ site.header = header) ↔
        j = index ∧ classAt? root parts more = some header := by
  constructor
  · rintro ⟨site, member, there, same⟩
    obtain ⟨i, rest, -, split⟩ := place_of_mem member
    have way := there.symm.trans split
    rw [List.append_assoc, List.append_cancel_left_eq, List.singleton_append] at way
    obtain ⟨rfl, rfl⟩ := List.cons.inj way
    exact ⟨rfl, ((within i rest).mp ⟨site, member, split, same⟩).2⟩
  · rintro ⟨rfl, found⟩
    cases more with
    | nil => cases found
    | cons i more => simpa using (within i more).mpr ⟨Nat.zero_le i, found⟩

/-- A class is listed if and only if it is at its place. -/
theorem mem_classSites_iff (index j : Nat) (more : List Nat) :
    (∃ site ∈ classSites owner place around index parts,
      site.place = place ++ j :: more ∧ site.header = header) ↔
      index ≤ j ∧ classAt? owner parts ((j - index) :: more) = some header := by
  fun_induction classSites owner place around index parts generalizing j more with
  | case1 => simp
  | case2 owner place around index root parts rest later hidden ihRest =>
    refine (ihRest j more).trans ?_
    rw [classAt?_cons_iff]
    simp [hidden]
  | case3 owner place around index root parts rest here later seen header' found ihRest ihParts =>
    have inner : (∃ site ∈ classSites root here (some here) 0 parts,
        site.place = place ++ j :: more ∧ site.header = header) ↔ _ := exists_inside_iff ihParts
    have first : here = place ++ j :: more ↔ j = index ∧ more = [] := by
      rw [List.append_cancel_left_eq, List.cons.injEq, eq_comm, eq_comm (a := [])]
    rw [classAt?_cons_iff, ← ihRest]
    change (∃ site ∈ _ :: classSites root here (some here) 0 parts ++ later, _) ↔ _
    simp only [List.cons_append, List.mem_cons, List.mem_append, or_and_right, exists_or, inner,
      exists_eq_left, first, eq_false_of_ne_true seen, found, true_and, ← or_assoc]
    refine or_congr_left ?_
    cases more <;> simp
  | case4 owner place around index root parts rest here later seen none ihRest ihParts =>
    have inner : (∃ site ∈ classSites root here around 0 parts,
        site.place = place ++ j :: more ∧ site.header = header) ↔ _ := exists_inside_iff ihParts
    rw [classAt?_cons_iff, ← ihRest]
    change (∃ site ∈ classSites root here around 0 parts ++ later, _) ↔ _
    simp only [List.mem_append, or_and_right, exists_or, inner, eq_false_of_ne_true seen, none,
      true_and]
    refine or_congr_left ?_
    cases more <;> simp

/-- What is recorded around the class is the innermost of the classes that enclose it, or else what
is around them all. -/
def ClassSite.Within (site : ClassSite) (around : Option (List Nat)) (sites : List ClassSite) :
    Prop :=
  (site.around = around ∧ ∀ outer ∈ sites, ¬ outer.Encloses site) ∨
    ∃ inner ∈ sites, inner.Encloses site ∧ site.around = some inner.place ∧
      ∀ outer ∈ sites, outer.Encloses site → outer.place <+: inner.place

/-- Classes that do not enclose it make no difference. -/
theorem ClassSite.Within.of_subset {sites all : List ClassSite} (within : site.Within around sites)
    (among : sites ⊆ all) (only : ∀ outer ∈ all, outer.Encloses site → outer ∈ sites) :
    site.Within around all := by
  rcases within with ⟨same, none⟩ | ⟨inner, member, encloses, same, innermost⟩
  · exact .inl ⟨same, fun outer known encloses => none outer (only outer known encloses) encloses⟩
  · exact .inr ⟨inner, among member, encloses, same, fun outer known encloses =>
      innermost outer (only outer known encloses) encloses⟩

/-- For the classes inside a class that is put in front, that class is around them all. -/
theorem ClassSite.Within.cons {sites : List ClassSite} {here : List Nat}
    (within : site.Within (some here) sites) (inside : here <+: site.place ∧ here ≠ site.place)
    (under : ∀ other ∈ sites, here <+: other.place) :
    site.Within around (⟨here, header, around⟩ :: sites) := by
  rcases within with ⟨same, none⟩ | ⟨inner, among, encloses, same, innermost⟩
  · refine .inr ⟨_, List.mem_cons_self, inside, same, fun outer known encloses => ?_⟩
    rcases List.mem_cons.mp known with rfl | among
    · exact List.prefix_rfl
    · exact absurd encloses (none outer among)
  · refine .inr ⟨inner, List.mem_cons_of_mem _ among, encloses, same,
      fun outer known encloses => ?_⟩
    rcases List.mem_cons.mp known with rfl | known
    · exact under inner among
    · exact innermost outer known encloses

/-- What encloses a class stands before it. -/
theorem ClassSite.Encloses.lt (encloses : outer.Encloses site) : outer.place < site.place := by
  obtain ⟨⟨rest, same⟩, apart⟩ := encloses
  cases rest with
  | nil => exact absurd (by simpa using same) apart
  | cons i more =>
    have less : outer.place ++ [] < outer.place ++ i :: more :=
      List.append_left_lt (List.nil_lt_cons ..)
    rwa [List.append_nil, same] at less

/-- With nothing around them all, it is recorded whether the class is inside another one, and in
which one directly. -/
theorem ClassSite.Within.around_iff {sites : List ClassSite} (within : site.Within none sites) :
    (site.around = none ↔ ∀ outer ∈ sites, ¬ outer.Encloses site) ∧
      ∀ outer ∈ sites, (site.around = some outer.place ↔ outer.Encloses site ∧
        ∀ other ∈ sites, other.Encloses site → other.place <+: outer.place) := by
  rcases within with ⟨same, none⟩ | ⟨inner, member, encloses, same, innermost⟩
  · exact ⟨iff_of_true same none, fun outer known =>
      iff_of_false (by simp [same]) fun encloses => none outer known encloses.1⟩
  · refine ⟨iff_of_false (by simp [same]) fun none => none inner member encloses,
      fun outer known => ?_⟩
    rw [same, Option.some.injEq]
    constructor
    · intro there
      unfold Encloses
      rw [← there]
      exact ⟨encloses, innermost⟩
    · rintro ⟨around, all⟩
      have first := innermost outer known around
      exact (all inner member encloses).eq_of_length_le first.length_le

/-- What is recorded around the classes in the parts is right. -/
theorem within_of_mem (member : site ∈ classSites owner place around index parts) :
    site.Within around (classSites owner place around index parts) := by
  fun_induction classSites owner place around index parts with
  | case1 => cases member
  | case2 owner place around index root parts rest later hidden ihRest => exact ihRest member
  | case3 owner place around index root parts rest here later seen header found ihRest ihParts =>
    rcases List.mem_append.mp member with member | member
    · refine ClassSite.Within.of_subset ?_ (List.subset_append_left _ _) fun outer known encloses =>
        (List.mem_append.mp known).resolve_right fun among =>
          (apart_of_mem (under_of_mem member) among).2.1 encloses.1
      rcases List.mem_cons.mp member with rfl | inside
      · refine .inl ⟨rfl, fun outer known encloses => encloses.2 ?_⟩
        exact encloses.1.eq_of_length_le (under_of_mem known).length_le
      · exact (ihParts inside).cons (inside_of_mem inside) fun other among =>
          (inside_of_mem among).1
    · exact (ihRest member).of_subset (List.subset_append_right _ _) fun outer known encloses =>
        (List.mem_append.mp known).resolve_left fun among =>
          (apart_of_mem (under_of_mem among) member).1 encloses.1
  | case4 owner place around index root parts rest here later seen none ihRest ihParts =>
    rcases List.mem_append.mp member with member | member
    · exact (ihParts member).of_subset (List.subset_append_left _ _) fun outer known encloses =>
        (List.mem_append.mp known).resolve_right fun among =>
          (apart_of_mem (inside_of_mem member).1 among).2.1 encloses.1
    · exact (ihRest member).of_subset (List.subset_append_right _ _) fun outer known encloses =>
        (List.mem_append.mp known).resolve_left fun among =>
          (apart_of_mem (inside_of_mem among).1 member).1 encloses.1

/-! ### Names -/

section Names

variable {package : Option QualifiedName} {binary : Option String} {number count more : Nat}
  {entries others : List (ClassSite × ClassName)}

/-- The anonymous classes directly in what is at the place. -/
def anonymousIn (place : Option (List Nat)) (entries : List (ClassSite × ClassName)) :
    List (ClassSite × ClassName) :=
  entries.filter fun entry => entry.1.around = place && entry.1.header.isAnonymous

/-- The classes directly in what is at the place are named after it, and the anonymous ones are
numbered in turn, unless it is no class. -/
structure NumberedIn (place : Option (List Nat)) (binary : Option String) (number count : Nat)
    (entries : List (ClassSite × ClassName)) : Prop where
  named : ∀ entry ∈ entries, entry.1.around = place → ∀ name, entry.1.header = .named name →
    entry.2.binaryName = binaryName binary name.name
  anonymous : binary.isSome → (anonymousIn place entries).map (·.2.binaryName) =
    (List.range' number count).map fun number => binaryName binary (toString number)

/-- Nothing is directly in what is at the place. -/
theorem NumberedIn.of_none {place : Option (List Nat)}
    (none : ∀ entry ∈ entries, entry.1.around ≠ place) :
    NumberedIn place binary number 0 entries where
  named entry member same := absurd same (none entry member)
  anonymous _ := by
    have empty : anonymousIn place entries = [] :=
      List.filter_eq_nil_iff.mpr fun entry member => by simp [none entry member]
    rw [empty]
    rfl

theorem NumberedIn.append {place : Option (List Nat)}
    (first : NumberedIn place binary number count entries)
    (second : NumberedIn place binary (if binary.isSome then number + count else number) more
      others) : NumberedIn place binary number (count + more) (entries ++ others) where
  named entry member := by
    rcases List.mem_append.mp member with member | member
    · exact first.named entry member
    · exact second.named entry member
  anonymous some := by
    have following := second.anonymous some
    rw [if_pos some] at following
    rw [anonymousIn, List.filter_append, List.map_append, ← anonymousIn, ← anonymousIn,
      first.anonymous some, following, ← List.map_append, List.range'_append_1]

theorem NumberedIn.cons_of_ne {place : Option (List Nat)} {entry : ClassSite × ClassName}
    (apart : entry.1.around ≠ place) (numbered : NumberedIn place binary number count entries) :
    NumberedIn place binary number count (entry :: entries) where
  named := List.forall_mem_cons.mpr ⟨fun same => absurd same apart, numbered.named⟩
  anonymous some := by
    rw [anonymousIn, List.filter_cons_of_neg (by simp [apart])]
    exact numbered.anonymous some

/-- The classes in some parts have their names, where what they are in has the binary name. -/
structure Consistent (package : Option QualifiedName) (around : Option (List Nat))
    (binary : Option String) (number count : Nat) (entries : List (ClassSite × ClassName)) :
    Prop where
  told : ∀ entry ∈ entries, entry.2 = entry.1.header.toClassName package entry.2.binaryName
  placed : ∀ entry ∈ entries,
    entry.1.around = around ∨ ∃ outer ∈ entries, entry.1.around = some outer.1.place
  fresh : ∀ entry ∈ entries, around ≠ some entry.1.place
  here : NumberedIn around binary number count entries
  within : ∀ outer ∈ entries, ∃ count,
    NumberedIn (some outer.1.place) (some outer.2.binaryName) 1 count entries

theorem consistent_nil : Consistent package around binary number 0 [] where
  told _ member := by cases member
  placed _ member := by cases member
  fresh _ member := by cases member
  here := .of_none fun _ member => by cases member
  within _ member := by cases member

theorem Consistent.append (first : Consistent package around binary number count entries)
    (second : Consistent package around binary (if binary.isSome then number + count else number)
      more others)
    (apart : ∀ entry ∈ entries, ∀ other ∈ others, entry.1.place ≠ other.1.place) :
    Consistent package around binary number (count + more) (entries ++ others) where
  told := List.forall_mem_append.mpr ⟨first.told, second.told⟩
  placed := by
    refine List.forall_mem_append.mpr ⟨fun entry member => ?_, fun entry member => ?_⟩
    · exact (first.placed entry member).imp_right fun ⟨outer, known, same⟩ =>
        ⟨outer, List.mem_append_left _ known, same⟩
    · exact (second.placed entry member).imp_right fun ⟨outer, known, same⟩ =>
        ⟨outer, List.mem_append_right _ known, same⟩
  fresh := List.forall_mem_append.mpr ⟨first.fresh, second.fresh⟩
  here := first.here.append second.here
  within := by
    refine List.forall_mem_append.mpr ⟨fun outer member => ?_, fun outer member => ?_⟩
    · obtain ⟨count, numbered⟩ := first.within outer member
      have none : NumberedIn (some outer.1.place) (some outer.2.binaryName) (1 + count) 0 others :=
        .of_none fun entry known same => by
          rcases second.placed entry known with here | ⟨other, among, there⟩
          · exact first.fresh outer member (here.symm.trans same)
          · exact apart outer member other among (Option.some.inj (same.symm.trans there))
      exact ⟨count + 0, numbered.append none⟩
    · obtain ⟨count, numbered⟩ := second.within outer member
      have none : NumberedIn (some outer.1.place) (some outer.2.binaryName) 1 0 entries :=
        .of_none fun entry known same => by
          rcases first.placed entry known with here | ⟨other, among, there⟩
          · exact second.fresh outer member (here.symm.trans same)
          · exact apart other among outer member (Option.some.inj (there.symm.trans same))
      exact ⟨0 + count, none.append numbered⟩

/-- A class with its name, in front of the classes inside it. -/
theorem Consistent.cons {here : List Nat}
    (inner : Consistent package (some here) (some (binaryName binary (header.id number))) 1 count
      entries)
    (around : Option (List Nat)) (outside : ∀ place, around = some place → place ≠ here ∧
      ∀ entry ∈ entries, place ≠ entry.1.place) :
    Consistent package around binary number (if header.isAnonymous then 1 else 0)
      ((⟨here, header, around⟩,
        header.toClassName package (binaryName binary (header.id number))) :: entries) where
  told := List.forall_mem_cons.mpr ⟨rfl, inner.told⟩
  placed := by
    refine List.forall_mem_cons.mpr ⟨.inl rfl, fun entry member => .inr ?_⟩
    rcases inner.placed entry member with same | ⟨outer, known, same⟩
    · exact ⟨_, List.mem_cons_self, same⟩
    · exact ⟨outer, List.mem_cons_of_mem _ known, same⟩
  fresh := List.forall_mem_cons.mpr ⟨fun same => (outside here same).1 rfl,
    fun entry member same => (outside _ same).2 entry member rfl⟩
  here := by
    have none : ∀ entry ∈ entries, entry.1.around ≠ around := by
      intro entry member same
      rcases inner.placed entry member with there | ⟨outer, known, there⟩
      · exact (outside here (same.symm.trans there)).1 rfl
      · exact (outside _ (same.symm.trans there)).2 outer known rfl
    have empty : anonymousIn around entries = [] :=
      List.filter_eq_nil_iff.mpr fun entry member => by simp [none entry member]
    refine ⟨List.forall_mem_cons.mpr ⟨fun _ name same => ?_, fun entry member same =>
      absurd same (none entry member)⟩, fun _ => ?_⟩
    · cases same
      rfl
    · cases header with
      | named name =>
        rw [anonymousIn, List.filter_cons_of_neg (by simp [ClassHeader.isAnonymous]),
          ← anonymousIn, empty]
        rfl
      | anonymous position =>
        rw [anonymousIn, List.filter_cons_of_pos (by simp [ClassHeader.isAnonymous]),
          ← anonymousIn, empty]
        rfl
  within := by
    refine List.forall_mem_cons.mpr ⟨⟨count, inner.here.cons_of_ne fun same =>
      (outside here same).1 rfl⟩, fun outer member => ?_⟩
    obtain ⟨count, numbered⟩ := inner.within outer member
    exact ⟨count, numbered.cons_of_ne fun same => (outside _ same).2 outer member rfl⟩

theorem Consistent.zip_append {sites others : List ClassSite} {names after : List ClassName}
    (same : sites.length = names.length)
    (first : Consistent package around binary number count (sites.zip names))
    (second : Consistent package around binary (if binary.isSome then number + count else number)
      more (others.zip after))
    (apart : ∀ site ∈ sites, ∀ other ∈ others, site.place ≠ other.place) :
    Consistent package around binary number (count + more)
      ((sites ++ others).zip (names ++ after)) := by
  rw [List.zip_append same]
  exact first.append second fun entry member other among =>
    apart _ (List.of_mem_zip member).1 _ (List.of_mem_zip among).1

open ClassTree in
/-- The classes in the parts of what is at a place have their names. -/
theorem consistent_classSites (package : Option QualifiedName) (binary : Option String)
    (number : Nat) (bound : ∀ outer, around = some outer → outer <+: place) :
    (classSites owner place around index parts).length =
        (namesOfAll package binary number (Outline.classesOfAll owner parts)).length ∧
      Consistent package around binary number (anonymous (Outline.classesOfAll owner parts))
        ((classSites owner place around index parts).zip
          (namesOfAll package binary number (Outline.classesOfAll owner parts))) := by
  fun_induction classSites owner place around index parts generalizing binary number with
  | case1 => exact ⟨rfl, consistent_nil⟩
  | case2 owner place around index root parts rest later hidden ihRest =>
    rw [Outline.classesOfAll, Outline.classes, if_pos hidden]
    exact ihRest binary number bound
  | case3 owner place around index root parts rest here later seen header found ihRest ihParts =>
    have classes : Outline.classesOfAll owner (.node root parts :: rest) =
        [.node header (Outline.classesOfAll root parts)] ++ Outline.classesOfAll owner rest := by
      rw [Outline.classesOfAll, Outline.classes, if_neg seen, found]
    obtain ⟨length, inner⟩ := ihParts (some (binaryName binary (header.id number))) 1
      fun outer same => by cases same; exact List.prefix_rfl
    obtain ⟨length', further⟩ := ihRest binary
      (advance binary number [.node header (Outline.classesOfAll root parts)]) bound
    have one : anonymous [.node header (Outline.classesOfAll root parts)] =
        if header.isAnonymous then 1 else 0 := by
      simp [anonymous, List.countP_cons, ClassTree.header]
    have below (p : List Nat) (under : here <+: p) (outer : List Nat)
        (same : around = some outer) : outer ≠ p := by
      rintro rfl
      have short := ((under.trans (bound outer same)).length_le)
      simp only [here, List.length_append, List.length_singleton] at short
      omega
    have first := inner.cons around fun outer same =>
      ⟨below here List.prefix_rfl outer same, fun entry member =>
        below _ (inside_of_mem (List.of_mem_zip member).1).1 outer same⟩
    rw [← one] at first
    rw [classes, namesOfAll_append, namesOfAll_singleton, names_eq, anonymous, List.countP_append]
    refine ⟨by simp [length, length', later], ?_⟩
    have lengths := congrArg (· + 1) length
    exact first.zip_append lengths further fun site member other among same =>
      (apart_of_mem (under_of_mem member) among).1 (same ▸ List.prefix_rfl)
  | case4 owner place around index root parts rest here later seen none ihRest ihParts =>
    have classes : Outline.classesOfAll owner (.node root parts :: rest) =
        Outline.classesOfAll root parts ++ Outline.classesOfAll owner rest := by
      rw [Outline.classesOfAll, Outline.classes, if_neg seen, none]
    obtain ⟨length, inner⟩ := ihParts binary number fun outer same =>
      (bound outer same).trans (List.prefix_append _ _)
    obtain ⟨length', further⟩ := ihRest binary
      (advance binary number (Outline.classesOfAll root parts)) bound
    rw [classes, namesOfAll_append, anonymous, List.countP_append]
    refine ⟨by simp [length, length', later], inner.zip_append length further ?_⟩
    intro site member other among same
    exact (apart_of_mem (inside_of_mem member).1 among).1 (same ▸ List.prefix_rfl)

end Names

/-- The classes in a source file are those that are at some place in it. -/
theorem exists_site_iff (unit : CompilationUnit) (place : List Nat) (header : ClassHeader) :
    (∃ site ∈ CompilationUnit.classSites unit, site.place = place ∧ site.header = header) ↔
      classAt? ⟨unit⟩ unit.parts place = some header := by
  cases place with
  | nil =>
    rw [classAt?_here]
    refine iff_of_false ?_ nofun
    rintro ⟨site, member, here, -⟩
    exact (inside_of_mem member).2 here.symm
  | cons i more =>
    have listed : (∃ site ∈ CompilationUnit.classSites unit,
        site.place = [] ++ i :: more ∧ site.header = header) ↔
        0 ≤ i ∧ classAt? ⟨unit⟩ unit.parts ((i - 0) :: more) = some header :=
      mem_classSites_iff 0 i more
    simpa using listed

/-- How the classes in a source file are named. A name is told of each class, and the classes are
listed once each, by their places: so a class stands before those that it encloses. What is recorded
around a class is the innermost of the classes that enclose it. A name tells the kind and the
position of its class, and its qualified name is the binary name behind the name of the package. A
class that is declared with a name has that for its binary name if no class encloses it, and else
the binary name of the innermost one, a dollar sign and its name. The anonymous classes directly in
one class have its binary name, a dollar sign and the numbers from one on, in the order of the
names. A walk that keeps a frame with a counter for each class that it is in gives these names, and
has no frames left in the end. -/
theorem classNames_numbered (unit : CompilationUnit) :
    let sites := CompilationUnit.classSites unit
    let names := CompilationUnit.classNames unit
    let entries := sites.zip names
    (entries.map Prod.fst = sites ∧ entries.map Prod.snd = names) ∧
    (∀ place header, (∃ site ∈ sites, site.place = place ∧ site.header = header) ↔
      classAt? ⟨unit⟩ unit.parts place = some header) ∧
    sites.Pairwise (fun a b => a.place < b.place) ∧
    entries.Pairwise (fun a b => ¬ b.1.Encloses a.1) ∧
    (∀ site ∈ sites, (site.around = none ↔ ∀ outer ∈ sites, ¬ outer.Encloses site) ∧
      ∀ outer ∈ sites, (site.around = some outer.place ↔ outer.Encloses site ∧
        ∀ other ∈ sites, other.Encloses site → other.place <+: outer.place)) ∧
    (∀ entry ∈ entries, entry.2.isAnonymous = entry.1.header.isAnonymous ∧
      entry.2.position = entry.1.header.position ∧
      (CompilationUnit.package? unit = none → entry.2.qualifiedName = entry.2.binaryName) ∧
      ∀ package, CompilationUnit.package? unit = some package →
        entry.2.qualifiedName = package.display ++ "." ++ entry.2.binaryName) ∧
    (∀ entry ∈ entries, ∀ name, entry.1.header = .named name →
      (entry.1.around = none → entry.2.binaryName = name.name) ∧
      ∀ outer ∈ entries, entry.1.around = some outer.1.place →
        entry.2.binaryName = outer.2.binaryName ++ "$" ++ name.name) ∧
    (∀ outer ∈ entries, ∃ count,
      (anonymousIn (some outer.1.place) entries).map (·.2.binaryName) =
        (List.range count).map fun n => outer.2.binaryName ++ "$" ++ toString (n + 1)) ∧
    CompilationUnit.nameClasses unit = { frames := [], names } := by
  intro sites names entries
  obtain ⟨length, consistent⟩ : sites.length = names.length ∧ Consistent _ none none 1 _ entries :=
    consistent_classSites _ none 1 nofun
  have inSites (entry : ClassSite × ClassName) (member : entry ∈ entries) : entry.1 ∈ sites :=
    (List.of_mem_zip member).1
  have firsts : entries.map Prod.fst = sites := List.map_fst_zip (Nat.le_of_eq length)
  refine ⟨⟨firsts, List.map_snd_zip (Nat.le_of_eq length.symm)⟩, exists_site_iff unit,
    pairwise_classSites, ?_, fun site member => (within_of_mem member).around_iff,
    fun entry member => ?_, fun entry member name same =>
      ⟨fun none => consistent.here.named entry member none name same, fun outer known around => ?_⟩,
    fun outer known => ?_, nameClasses_unit unit⟩
  · have ordered : sites.Pairwise fun a b => ¬ b.Encloses a :=
      pairwise_classSites.imp fun {a b} before (encloses : b.Encloses a) =>
        List.lt_irrefl _ (List.lt_trans before encloses.lt)
    rw [← firsts] at ordered
    exact List.pairwise_map.mp ordered
  · have told := consistent.told entry member
    refine ⟨congrArg ClassName.isAnonymous told, congrArg ClassName.position told, ?_, ?_⟩
    · intro none
      exact (congrArg ClassName.qualifiedName told).trans (by rw [none]; rfl)
    · intro package some
      exact (congrArg ClassName.qualifiedName told).trans (by rw [some]; rfl)
  · obtain ⟨count, numbered⟩ := consistent.within outer known
    exact numbered.named entry member around name same
  · obtain ⟨count, numbered⟩ := consistent.within outer known
    refine ⟨count, (numbered.anonymous rfl).trans ?_⟩
    rw [List.range'_eq_map_range, List.map_map]
    refine List.map_congr_left fun n _ => ?_
    rw [Function.comp_apply, Nat.add_comm]
    rfl

end JavaFrontend.Java
