import JavaFrontend.Proofs.Java.Classes

/-!
When the names of the classes in a source file tell them apart.
-/

namespace JavaFrontend

/-! ### Identifiers in texts -/

/-- What begins with a digit is a number. -/
theorem Lexeme.scan_digit {c : Char} (digit : c.isDigit) (inTypes : Bool) (text : List Char) :
    scan inTypes c text = numeric c text := by
  refine scan_of_isDigit ?_ inTypes text
  obtain ⟨low, high⟩ : '0' ≤ c ∧ c ≤ '9' := by
    unfold Char.isDigit at digit
    exact (Bool.and_eq_true_iff.mp digit).imp of_decide_eq_true of_decide_eq_true
  have few : c.toNat ≤ 57 := high
  have worth : c.toNat - 48 < 10 := by omega
  simp [Digits.isDigit, Digits.value?, low, high, worth]

/-- An identifier does not begin with a digit. -/
theorem Lexer.identifier_next {lexer : Lexer} (identifier : lexer.next.1.kind = .identifier) :
    ∀ c ∈ lexer.next.1.text.toList.head?, c.isDigit = false := by
  obtain ⟨text, position, inTypes⟩ := lexer
  cases text with
  | nil => cases identifier
  | cons c text =>
    unfold next at identifier ⊢
    dsimp only at identifier ⊢
    cases digit : c.isDigit with
    | true =>
      have valued := Lexeme.valued_numeric c text
      rw [← Lexeme.scan_digit digit inTypes] at valued
      generalize Lexeme.scan inTypes c text = lexeme at valued identifier
      cases valued with
      | literal extra same =>
        rename_i value
        cases identifier
        cases value <;> cases same
      | fault => cases identifier
    | false =>
      generalize (Lexeme.scan inTypes c text).outcome = outcome
      cases outcome <;> simp [digit]

theorem Lexer.head_of_identifier (lexer : Lexer) : ∀ token ∈ lexer.tokens,
    token.kind = .identifier → ∀ c ∈ token.text.toList.head?, c.isDigit = false :=
  forall_tokens (fun _ => identifier_next) lexer

namespace Java

/-! ### Names and numbers -/

/-- What the name of a class can be: without a dollar sign, and no number. -/
def IsPlainName (name : String) : Prop :=
  '$' ∉ name.toList ∧ ∀ c ∈ name.toList.head?, c.isDigit = false

theorem dollar_not_mem_toString (number : Nat) : '$' ∉ (toString number).toList := by
  rw [Nat.toString_eq_ofList_toDigits, String.toList_ofList]
  intro member
  have digit := Nat.isDigit_of_mem_toDigits (by decide) (by decide) member
  exact absurd digit (by decide)

theorem ne_toString_of_plain {name : String} (plain : IsPlainName name) (number : Nat) :
    name ≠ toString number := by
  rintro rfl
  cases list : Nat.toDigits 10 number with
  | nil => exact Nat.toDigits_ne_nil list
  | cons c rest =>
    have digit : c.isDigit :=
      Nat.isDigit_of_mem_toDigits (by decide) (by decide) (list ▸ List.mem_cons_self)
    have other := plain.2 c (by simp [list])
    rw [digit] at other
    cases other

theorem toString_inj {number other : Nat} : toString number = toString other ↔ number = other :=
  Nat.repr_inj

/-! ### One class inside another -/

/-- The name is that of the class with the binary name, or of one in it. -/
def Under (binary name : String) : Prop :=
  ∃ rest : List Char, name.toList = binary.toList ++ rest ∧ ∀ c ∈ rest.head?, c = '$'

theorem Under.self (binary : String) : Under binary binary := ⟨[], by simp, by simp⟩

theorem toList_binaryName (outer own : String) :
    (binaryName (some outer) own).toList = outer.toList ++ '$' :: own.toList := by
  simp [binaryName]

theorem Under.of_inner {outer own name : String}
    (under : Under (binaryName (some outer) own) name) :
    Under outer name ∧ name ≠ outer := by
  obtain ⟨rest, same, -⟩ := under
  rw [toList_binaryName, List.append_assoc, List.cons_append] at same
  refine ⟨⟨_, same, by simp⟩, ?_⟩
  rintro rfl
  exact absurd (congrArg List.length same) (by simp)

/-- Names without a dollar sign can be told from what is under them. -/
theorem eq_of_under {around : Option String} {own other name : String}
    (plain : '$' ∉ own.toList) (plain' : '$' ∉ other.toList)
    (first : Under (binaryName around own) name) (second : Under (binaryName around other) name) :
    own = other := by
  obtain ⟨rest, same, begins⟩ := first
  obtain ⟨rest', same', begins'⟩ := second
  have ends {text rest : List Char} (plain : '$' ∉ text) (begins : ∀ c ∈ rest.head?, c = '$') :
      (text ++ rest).takeWhile (· ≠ '$') = text :=
    Lexeme.takeWhile_run (fun c member => by simpa using ne_of_mem_of_not_mem member plain)
      fun c first => by simpa using begins c first
  have all : own.toList ++ rest = other.toList ++ rest' := by
    cases around with
    | none => exact same.symm.trans same'
    | some outer =>
      rw [toList_binaryName, List.append_assoc] at same same'
      simpa using same.symm.trans same'
  refine String.toList_inj.mp ?_
  rw [← ends plain begins, all, ends plain' begins']

/-! ### The classes directly in one class -/

/-- What a class adds to the name of the class around it: its name, or else its number. -/
def ClassHeader.id (number : Nat) : ClassHeader → String
  | .named name => name.name
  | .anonymous _ => toString number

namespace ClassTree

/-- What the classes add to the name of the class around them. -/
def ids (around : Option String) (number : Nat) : List ClassTree → List String
  | [] => []
  | tree :: rest =>
    let next := if tree.header.isAnonymous && around.isSome then number + 1 else number
    tree.header.id number :: ids around next rest

/-- The names that classes have of their own. -/
def ownNames (trees : List ClassTree) : List String :=
  trees.filterMap fun tree =>
    match tree.header with
    | .named name => some name.name
    | .anonymous _ => none

mutual

/-- No two classes directly in one class have the same name. -/
def Apart : ClassTree → Prop
  | .node _ inner => (ownNames inner).Nodup ∧ ApartAll inner

def ApartAll : List ClassTree → Prop
  | [] => True
  | tree :: rest => tree.Apart ∧ ApartAll rest

end

/-- All names in the classes are plain. -/
def HavePlainNames (trees : List ClassTree) : Prop :=
  ∀ name, .named name ∈ headersOfAll trees → IsPlainName name.name

variable {package : Option QualifiedName} {around : Option String} {outer : String} {number : Nat}
  {tree : ClassTree} {trees : List ClassTree}

theorem plain_of_ids (plain : HavePlainNames trees) (around : Option String) (number : Nat) :
    ∀ id ∈ ids around number trees, '$' ∉ id.toList := by
  induction trees generalizing number with
  | nil => simp [ids]
  | cons tree trees ih =>
    obtain ⟨header, inner⟩ := tree
    refine List.forall_mem_cons.mpr ⟨?_, ih (fun name member => plain name ?_) _⟩
    · cases header with
      | named name => exact (plain name (by simp [headersOfAll, headers])).1
      | anonymous => exact dollar_not_mem_toString number
    · simp [headersOfAll, member]

theorem HavePlainNames.tail (plain : HavePlainNames (tree :: trees)) : HavePlainNames trees :=
  fun name member => plain name (by simp [headersOfAll, member])

theorem HavePlainNames.ownNames (plain : HavePlainNames trees) :
    ∀ name ∈ ownNames trees, IsPlainName name := by
  intro name member
  obtain ⟨⟨header, inner⟩, among, own⟩ := List.mem_filterMap.mp member
  cases header with
  | anonymous => cases own
  | named identifier =>
    cases own
    refine plain identifier ?_
    clear plain member
    induction trees with
    | nil => cases among
    | cons tree trees ih =>
      rcases List.mem_cons.mp among with rfl | later
      · simp [headersOfAll, headers]
      · simp [headersOfAll, ih later]

/-- What is not a name is a number, and numbers go up. -/
theorem of_mem_ids {id : String} (member : id ∈ ids around number trees) :
    id ∈ ownNames trees ∨ ∃ other, number ≤ other ∧ id = toString other := by
  induction trees generalizing number with
  | nil => cases member
  | cons tree trees ih =>
    obtain ⟨header, inner⟩ := tree
    rcases List.mem_cons.mp member with rfl | later
    · cases header with
      | named name => exact .inl List.mem_cons_self
      | anonymous => exact .inr ⟨number, Nat.le_refl _, rfl⟩
    · rcases ih later with own | ⟨other, above, rfl⟩
      · refine .inl ?_
        cases header with
        | named name => exact List.mem_cons_of_mem _ own
        | anonymous => exact own
      · refine .inr ⟨other, Nat.le_trans ?_ above, rfl⟩
        split <;> omega

theorem ownNames_subset : ownNames trees ⊆ ids around number trees := by
  induction trees generalizing number with
  | nil => exact List.nil_subset _
  | cons tree trees ih =>
    obtain ⟨header, inner⟩ := tree
    cases header with
    | named name => exact List.cons_subset_cons _ ih
    | anonymous => exact List.subset_cons_of_subset _ ih

/-- A name is among names and numbers only as a name. -/
theorem mem_ids_iff {name : String} (plain : IsPlainName name) :
    name ∈ ids around number trees ↔ name ∈ ownNames trees :=
  ⟨fun member => (of_mem_ids member).resolve_right fun ⟨_, _, same⟩ =>
    ne_toString_of_plain plain _ same, fun own => ownNames_subset own⟩

/-- In a class, names and numbers differ if names do. -/
theorem nodup_ids_some (plain : HavePlainNames trees) :
    (ids (some outer) number trees).Nodup ↔ (ownNames trees).Nodup := by
  induction trees generalizing number with
  | nil => exact Iff.rfl
  | cons tree trees ih =>
    have later {number : Nat} : (ids (some outer) number trees).Nodup ↔ _ := ih plain.tail
    obtain ⟨⟨name⟩ | ⟨position⟩, inner⟩ := tree
    · have own : name.name ∈ ids (some outer) number trees ↔ _ :=
        mem_ids_iff (plain name (by simp [headersOfAll, headers]))
      change (name.name :: ids (some outer) number trees).Nodup ↔ (name.name :: ownNames trees).Nodup
      rw [List.nodup_cons, List.nodup_cons, own, later]
    · change (toString number :: ids (some outer) (number + 1) trees).Nodup ↔ (ownNames trees).Nodup
      rw [List.nodup_cons, later, and_iff_right]
      intro member
      rcases of_mem_ids member with own | ⟨other, above, same⟩
      · exact ne_toString_of_plain (plain.tail.ownNames _ own) number rfl
      · have := toString_inj.mp same
        omega

/-- Outside of all classes all numbers are the same. -/
theorem number_mem_ids_none (plain : HavePlainNames trees) :
    toString number ∈ ids none number trees ↔ 0 < trees.countP (·.header.isAnonymous) := by
  induction trees with
  | nil => simp [ids]
  | cons tree trees ih =>
    have later := ih plain.tail
    obtain ⟨⟨name⟩ | ⟨position⟩, inner⟩ := tree
    · have other := ne_toString_of_plain (plain name (by simp [headersOfAll, headers])) number
      change toString number ∈ name.name :: ids none number trees ↔ _
      rw [List.mem_cons, or_iff_right other.symm, later]
      rfl
    · exact iff_of_true List.mem_cons_self (by simp [header, ClassHeader.isAnonymous])

theorem nodup_ids_none (plain : HavePlainNames trees) :
    (ids none number trees).Nodup ↔
      (ownNames trees).Nodup ∧ trees.countP (·.header.isAnonymous) ≤ 1 := by
  induction trees with
  | nil => simp [ids, ownNames]
  | cons tree trees ih =>
    have later := ih plain.tail
    obtain ⟨⟨name⟩ | ⟨position⟩, inner⟩ := tree
    · have own : name.name ∈ ids none number trees ↔ _ :=
        mem_ids_iff (plain name (by simp [headersOfAll, headers]))
      change (name.name :: ids none number trees).Nodup ↔ (name.name :: ownNames trees).Nodup ∧ _
      rw [List.nodup_cons, List.nodup_cons, own, later, and_assoc]
      rfl
    · change (toString number :: ids none number trees).Nodup ↔ (ownNames trees).Nodup ∧ _
      rw [List.nodup_cons, number_mem_ids_none plain.tail, later,
        List.countP_cons_of_pos (by rfl)]
      constructor
      · rintro ⟨none, distinct, -⟩
        exact ⟨distinct, by omega⟩
      · rintro ⟨distinct, few⟩
        exact ⟨by omega, distinct, by omega⟩

/-! ### Telling classes apart -/

theorem names_node (header : ClassHeader) (inner : List ClassTree) :
    ((ClassTree.node header inner).names package around number).map (·.binaryName) =
      binaryName around (header.id number) ::
        (namesOfAll package (some (binaryName around (header.id number))) 1 inner).map
          (·.binaryName) := by
  cases header <;> rfl

theorem mem_names_of_ids {id : String} (member : id ∈ ids around number trees) :
    binaryName around id ∈ (namesOfAll package around number trees).map (·.binaryName) := by
  induction trees generalizing number with
  | nil => cases member
  | cons tree trees ih =>
    obtain ⟨header, inner⟩ := tree
    rw [namesOfAll, List.map_append, names_node]
    rcases List.mem_cons.mp member with rfl | later
    · exact List.mem_append_left _ List.mem_cons_self
    · exact List.mem_append_right _ (ih later)

mutual

/-- The names of a class and of those in it are under its own. -/
theorem under_of_names (tree : ClassTree) (package : Option QualifiedName)
    (around : Option String) (number : Nat) :
    ∀ name ∈ (tree.names package around number).map (·.binaryName),
      Under (binaryName around (tree.header.id number)) name := by
  cases tree with
  | node header inner =>
    rw [names_node]
    refine List.forall_mem_cons.mpr ⟨.self _, fun name member => ?_⟩
    obtain ⟨id, -, under⟩ := under_of_namesOfAll inner package _ 1 name member
    exact under.of_inner.1

theorem under_of_namesOfAll (trees : List ClassTree) (package : Option QualifiedName)
    (around : Option String) (number : Nat) :
    ∀ name ∈ (namesOfAll package around number trees).map (·.binaryName),
      ∃ id ∈ ids around number trees, Under (binaryName around id) name := by
  cases trees with
  | nil => exact fun _ none => absurd none List.not_mem_nil
  | cons tree trees =>
    rw [namesOfAll, List.map_append, List.forall_mem_append]
    refine ⟨fun name member => ⟨_, List.mem_cons_self,
      under_of_names tree package around number name member⟩, fun name member => ?_⟩
    obtain ⟨id, among, under⟩ := under_of_namesOfAll trees package around _ name member
    exact ⟨id, List.mem_cons_of_mem _ among, under⟩

end

mutual

theorem nodup_names (tree : ClassTree) (package : Option QualifiedName) (around : Option String)
    (number : Nat) (plain : HavePlainNames [tree]) :
    ((tree.names package around number).map (·.binaryName)).Nodup ↔ tree.Apart := by
  cases tree with
  | node header inner =>
    have within : HavePlainNames inner := fun name member =>
      plain name (by simp [headersOfAll, headers, member])
    rw [names_node, List.nodup_cons, nodup_namesOfAll inner package _ 1 within,
      nodup_ids_some within, Apart, and_iff_right]
    intro member
    obtain ⟨id, -, under⟩ := under_of_namesOfAll inner package _ 1 _ member
    exact under.of_inner.2 rfl

/-- The names tell classes apart if what they add to the name around them does, and those in each
of them are told apart. -/
theorem nodup_namesOfAll (trees : List ClassTree) (package : Option QualifiedName)
    (around : Option String) (number : Nat) (plain : HavePlainNames trees) :
    ((namesOfAll package around number trees).map (·.binaryName)).Nodup ↔
      (ids around number trees).Nodup ∧ ApartAll trees := by
  cases trees with
  | nil => simp [namesOfAll, ids, ApartAll]
  | cons tree trees =>
    have first : HavePlainNames [tree] := fun name member => plain name (by
      simp only [headersOfAll, List.append_nil] at member
      simp [headersOfAll, member])
    have apart {next : Nat} :
        List.Disjoint ((tree.names package around number).map (·.binaryName))
            ((namesOfAll package around next trees).map (·.binaryName)) ↔
          tree.header.id number ∉ ids around next trees := by
      constructor
      · intro disjoint member
        refine disjoint ?_ (mem_names_of_ids member)
        obtain ⟨header, inner⟩ := tree
        rw [names_node]
        exact List.mem_cons_self
      · intro other name inFirst inRest
        obtain ⟨id, among, under⟩ := under_of_namesOfAll trees package around next name inRest
        have own := under_of_names tree package around number name inFirst
        have same := eq_of_under (plain_of_ids plain around number _ List.mem_cons_self)
          (plain_of_ids plain.tail around next id among) own under
        exact other (same ▸ among)
    rw [namesOfAll, List.map_append, List.nodup_append', nodup_names tree package around number first,
      nodup_namesOfAll trees package around _ plain.tail, apart, ids, List.nodup_cons, ApartAll]
    tauto

end

end ClassTree

/-! ### Names in the source -/

theorem word_of_header {owner part : Subtree} {name : Identifier}
    (header : owner.classHeader? part = some (.named name)) :
    Word.identifier name ∈ part.tree.words := by
  obtain ⟨tree⟩ := part
  cases tree with
  | classDeclaration | interfaceDeclaration | enumDeclaration =>
    cases header
    simp
  | classBody =>
    unfold Subtree.classHeader? at header
    dsimp only at header
    split at header <;> cases header
  | _ => cases header

/-- A name that a class has of its own is a word of the tree that the class is in. -/
theorem word_of_headersOfAll (subtree : Subtree) {name : Identifier}
    (member : .named name ∈
      ClassTree.headersOfAll (Outline.classesOfAll subtree subtree.tree.parts)) :
    Word.identifier name ∈ subtree.tree.words := by
  induction subtree using Subtree.induct with
  | step subtree ih =>
    rw [Tree.parts_eq, headersOfAll_classesOfAll] at member
    obtain ⟨part, walked, inside⟩ := List.mem_flatMap.mp member
    have child := subtree.tree.walked_subset walked
    refine (subtree.tree.inOrder_children.infix_of_mem child).subset ?_
    cases hides : subtree.hidesClasses part with
    | true =>
      rw [headersOfAll_classes_of_hidden hides] at inside
      cases inside
    | false =>
      rw [headersOfAll_classes _ _ hides] at inside
      rcases List.mem_append.mp inside with own | within
      · exact word_of_header (Option.mem_toList.mp own)
      · exact ih part child within

/-- The names of classes in a text are plain if its identifiers have no dollar sign. -/
theorem plain_of_words {source : String}
    (plain : ∀ token ∈ (Lexer.ofString source).tokens,
      token.kind = .identifier → '$' ∉ token.text.toList)
    {name : Identifier}
    (member : Word.identifier name ∈ (Lexer.ofString source).tokens.flatMap (·.word?.toList)) :
    IsPlainName name.name := by
  obtain ⟨token, among, word⟩ := List.mem_flatMap.mp member
  rw [Option.mem_toList, Token.word?] at word
  split at word
  · next kind =>
    cases word
    exact ⟨plain token among kind, Lexer.head_of_identifier _ token among kind⟩
  · obtain ⟨_, -, other⟩ := Option.map_eq_some_iff.mp word
    cases other

def Tree.declaredName? {category : Category} : Tree category → Option String
  | .classDeclaration _ name _ _ _ _ | .interfaceDeclaration _ name _ _ _
  | .enumDeclaration _ name _ _ _ => some name.name
  | _ => none

/-- The names of the types that are members in the body of a class. -/
def Subtree.memberNames (body : Subtree) : List String :=
  body.tree.children.flatMap fun
    | ⟨.memberType declaration⟩ => declaration.declaredName?.toList
    | _ => []

/-- What is required of the names in a source file: there is no dollar sign in an identifier, the
outermost types have different names, and so have the member types of one class, no one of which is
named as a class around it. Types in the blocks of a class may have one name. -/
structure NamesTypesApart (source : String) (unit : CompilationUnit) : Prop where
  plain : ∀ token ∈ (Lexer.ofString source).tokens,
    token.kind = .identifier → '$' ∉ token.text.toList
  outermost : (unit.children.filterMap (·.tree.declaredName?)).Nodup
  members : ∀ body ∈ Subtree.preorder ⟨unit⟩, body.memberNames.Nodup
  around : ∀ outer ∈ Subtree.preorder ⟨unit⟩, ∀ body ∈ outer.preorder,
    ∀ name ∈ outer.tree.declaredName?, name ∉ body.memberNames

end Java

end JavaFrontend
