import JavaFrontend.Proofs.Java.Parameters
import JavaFrontend.Proofs.Java.Representation
import JavaFrontend.Proofs.Token.Spacing

/-!
Brackets of texts and what is parsed of them. Lexers hand out no more opening brackets than there
are in a text, however often a tape is read again. So what is parsed of a text with fewer than
`2 ^ 32` of them has all that the syntax requires (`proper_of_parse`); of more, arrays may come out
without a dimension (`improper_of_brackets`).
-/

namespace JavaFrontend

open Java

/-! ### Opening brackets of a text -/

namespace Lexer

/-- An opening bracket that is handed out is taken from the text. -/
theorem opened_next (lexer : Lexer) :
    opened [lexer.next.1] + lexer.next.2.text.count '[' ≤ lexer.text.count '[' := by
  obtain ⟨text, position, inTypes⟩ := lexer
  cases text with
  | nil => exact Nat.le_refl _
  | cons c text =>
    by_cases bracket : (next ⟨c :: text, position, inTypes⟩).1.kind = .leftBracket
    · obtain ⟨found, ok⟩ : ∃ value, (Lexeme.scan inTypes c text).outcome =
          .ok (.leftBracket, value) := by
        simp only [next] at bracket
        split at bracket
        · next kind value ok => exact ⟨value, bracket ▸ ok⟩
        · cases bracket
      obtain ⟨more, left, rfl, written, scanned⟩ := Lexeme.written_of_ok ok rfl
      have spelled : Kind.leftBracket.text.toList = ['['] := by decide
      obtain ⟨rfl, rfl⟩ := List.cons.inj (spelled.symm.trans written)
      rw [opened_cons, beq_iff_eq.mpr bracket]
      simp only [next, scanned]
      exact Nat.le_of_eq (by simp [opened, Lexeme.plain, Nat.add_comm])
    · have none : opened [(next ⟨c :: text, position, inTypes⟩).1] = 0 := by simpa [opened]
      rw [none, Nat.zero_add]
      exact ((List.drop_sublist _ text).trans (List.sublist_cons_self c text)).count_le '['

theorem opened_nextSignificant {source : TokenSource} {lexer : Lexer}
    (same : source = .text lexer) : ∃ rest, source.nextSignificant.2 = .text rest ∧
      opened [source.nextSignificant.1] + rest.text.count '[' ≤ lexer.text.count '[' := by
  fun_induction TokenSource.nextSignificant source generalizing lexer with
  | case1 source more ih =>
    cases same
    obtain ⟨rest, left, fewer⟩ := ih rfl
    refine ⟨rest, left, Nat.le_trans fewer ?_⟩
    exact Nat.le_trans (Nat.le_add_left _ _) lexer.opened_next
  | case2 source stop =>
    cases same
    exact ⟨lexer.next.2, rfl, lexer.opened_next⟩

end Lexer

namespace Tape

/-- On the tape and in the text behind it are no more than so many opening brackets. -/
def Opens (total : Nat) (tape : Tape) : Prop :=
  ∃ lexer, tape.source = .text lexer ∧
    opened tape.read + opened tape.ahead + lexer.text.count '[' ≤ total

variable {total : Nat} {tape rest : Tape} {inTypes : Option Bool} {token : Token}

theorem opens_start (source : String) :
    Opens (source.toList.count '[') { source := .ofString source } :=
  ⟨.ofString source, rfl, by simp [opened, Lexer.ofString]⟩

theorem Opens.rewind (opens : Opens total tape) : Opens total tape.rewind := by
  obtain ⟨lexer, same, within⟩ := opens
  refine ⟨lexer, same, Nat.le_trans (Nat.le_of_eq ?_) within⟩
  simp [Tape.rewind, opened, List.countP_append]

theorem Opens.next (opens : Opens total tape) (ran : tape.next inTypes = .ok (token, rest)) :
    Opens total rest := by
  obtain ⟨read, ahead, source⟩ := tape
  obtain ⟨lexer, same, within⟩ := opens
  cases same
  unfold Tape.next at ran
  split at ran
  · rename_i first others same
    cases same
    cases ran
    refine ⟨lexer, rfl, Nat.le_trans (Nat.le_of_eq ?_) within⟩
    simp only [opened_cons]
    omega
  · rename_i none
    dsimp only at ran none within
    subst none
    obtain ⟨told, same, kept⟩ : ∃ told : Lexer, inTypes.elim (.text lexer)
        (TokenSource.text lexer).setInTypes = .text told ∧ told.text = lexer.text := by
      cases inTypes with
      | none => exact ⟨lexer, rfl, rfl⟩
      | some inTypes => exact ⟨lexer.setInTypes inTypes, rfl, rfl⟩
    obtain ⟨left, further, fewer⟩ := Lexer.opened_nextSignificant same
    split at ran
    · cases ran
    · cases ran
      refine ⟨left, further, Nat.le_trans ?_ within⟩
      dsimp only
      rw [← List.singleton_append, opened_append]
      rw [kept] at fewer
      omega

end Tape

namespace Parser

variable {splits : List Position}

/-- No pieces of a token are brackets unless it is one. -/
theorem opened_pieces (token : Token) : opened (pieces splits token) ≤ opened [token] := by
  unfold pieces
  split
  · refine Nat.le_trans (Nat.le_of_eq (List.countP_eq_zero.mpr fun single member => ?_))
      (Nat.zero_le _)
    obtain ⟨i, -, rfl⟩ := List.mem_map.mp member
    exact Bool.false_ne_true
  · exact Nat.le_refl _

theorem opened_taken (splits : List Position) (tape : Tape) :
    opened (taken splits tape) ≤ opened tape.read := by
  have each (tokens : List Token) : opened (tokens.flatMap (pieces splits)) ≤ opened tokens := by
    induction tokens with
    | nil => exact Nat.le_refl _
    | cons token tokens ih =>
      rw [List.flatMap_cons, opened_append, ← List.singleton_append, opened_append]
      exact Nat.add_le_add (opened_pieces token) ih
  refine Nat.le_trans (each _) (Nat.le_of_eq ?_)
  exact List.countP_reverse

end Parser

/-! ### What is parsed -/

namespace Java

open OperandM JavaFrontend.Java.Reduction

variable {few : Prop} {nodes : List Node} {node : Node} {name : String}

/-- Compilation units are no mere counts or rows. -/
theorem sound_of_unitGoal (sound : ∀ operand ∈ nodes, Sound few operand)
    (ran : (unitGoal.run ⟨name, nodes⟩).1 = .ok node) : Sound few node := by
  have isUnit : Yields (fun _ => True) (fun node => ∃ unit, node = .unit unit) unitGoal := by
    refine .bind (.any _) fun _ _ => .ite (.pure ⟨_, rfl⟩) (.bind (.any _) fun part _ => ?_)
    cases part with
    | unit unit => exact .pure ⟨unit, rfl⟩
    | _ => exact .bind .all fun _ _ => .pure ⟨_, rfl⟩
  refine ⟨(keeps_unitGoal isProper_of_isFree).of_run
    (fun node among => (sound node among).trees) ran, ?_⟩
  obtain ⟨unit, rfl⟩ := isUnit.of_run (fun _ _ => trivial) ran
  exact List.forall_mem_singleton.mpr trivial

theorem collects_sound (total : Nat) : Collects fun tokens node =>
    opened tokens ≤ total → Sound (total < UInt32.size) node where
  leaf _ token _ := sound_ofToken token
  list _ _ _ all within := sound_list fun item among => all item among within
  more _ _ _ inside sound within := sound (Nat.le_trans (opened_le inside) within)
  goal _ _ _ all ran within := sound_of_unitGoal (fun operand among => all operand among within) ran

/-- Whatever the text, what is made of it has all that the syntax requires: all names, class types,
casts, annotations with pairs, declarations of variables, groups of a `switch`, and `catch` clauses
have at least one of their parts; only the last group of a `switch` may be without statements; every
`try` comes with something; new arrays have a length or else dimensions and values; and arrays have
no arrays as elements and at least one dimension, unless there are `2 ^ 32` opening brackets. -/
theorem proper_of_parse {parser : Parser Node} (isParser : IsParser parser) (typeContext : Bool)
    (source : String) {root : Node}
    (parsed : ({ parser with typeContext } : Parser Node).parse (.ofString source) = .ok root) :
    (∀ item ∈ root.items, Node.IsProper (source.toList.count '[' < UInt32.size) item) ∧
      (∀ tree ∈ root.trees, ∀ inner ∈ tree.preorder,
        inner.IsProper (source.toList.count '[' < UInt32.size)) ∧
      ∀ name : QualifiedName, name.parts ≠ [] := by
  obtain ⟨goal, expansion, grammar, parses⟩ := isParser.parses typeContext
  let total := source.toList.count '['
  obtain ⟨tape, splits, tokens, -, ⟨lexer, -, within⟩, front, result⟩ :=
    parses.result_of_tapes (collects_sound total)
      (fun alternative member tokens parts nodes node fit made reduces typed =>
        counted_of_made member fit made reduces typed)
      (fun _ _ _ counted within => (counted within).1) (Tape.Opens total) (Tape.opens_start source)
      (fun _ _ _ _ opens ran => opens.next ran) (fun _ opens => opens.rewind) parsed
  have few : opened tokens ≤ total := by
    have taken := opened_le front.sublist
    have read := Parser.opened_taken splits tape
    omega
  exact ⟨(result few).items, (result few).trees, fun name => List.cons_ne_nil _ _⟩

/-- An array has the dimensions of its type and those behind its name. -/
theorem proper_of_array : ∃ (parser : Parser Node) (root : Node), IsParser parser ∧
    ({ parser with typeContext := true } : Parser Node).parse (.ofString "int [ ] a [ ]") =
      .ok root ∧
    "int [ ] a [ ]".toList.count '[' < UInt32.size ∧
    (∀ item ∈ root.items, Node.IsProper ("int [ ] a [ ]".toList.count '[' < UInt32.size) item) ∧
    (∀ tree ∈ root.trees, ∀ inner ∈ tree.preorder,
      inner.IsProper ("int [ ] a [ ]".toList.count '[' < UInt32.size)) ∧
    ∀ name : QualifiedName, name.parts ≠ [] := by
  have text : parameterText 1 = "int [ ] a [ ]" := by decide
  obtain ⟨parser, made, parses⟩ := parse_of_brackets 1
  rw [text] at parses
  obtain ⟨place, name, parsed⟩ := parses true
  exact ⟨parser, _, .fragment _ made, parsed, by decide,
    proper_of_parse (.fragment _ made) true _ parsed⟩

/-- Of `2 ^ 32` pairs of brackets none is left, and the array has no dimension. -/
theorem improper_of_brackets : ¬ ∀ (parser : Parser Node) (typeContext : Bool) (source : String)
    (root : Node), IsParser parser →
      ({ parser with typeContext } : Parser Node).parse (.ofString source) = .ok root →
        ∀ tree ∈ root.trees, ∀ inner ∈ tree.preorder, inner.IsProper True := by
  intro all
  obtain ⟨count, none⟩ : ∃ count, (1 + count) % UInt32.size = 0 :=
    ⟨UInt32.size - 1, by simp [UInt32.size]⟩
  obtain ⟨parser, made, parses⟩ := parse_of_brackets count
  obtain ⟨place, name, parsed⟩ := parses true
  rw [none] at parsed
  have proper := all parser true _ _ (.fragment _ made) parsed
  have every : Every (Subtree.IsProper True)
      (Tree.parameter .nil (.arrayType (.primitiveType .nil .intWord place) 0) name false) := proper
  have array := every_self (every_cons.mp (every_children every)).1
  exact absurd (array.1 trivial) (Nat.not_succ_le_zero 0)

end Java

end JavaFrontend
