import JavaFrontend.Grammar.Text.Reader
import JavaFrontend.Proofs.Grammar.Text.Layout

/-!
How alternatives are written as a grammar text. Reading a text succeeds exactly when it is a
writing of alternatives that can be written at all, and it gives back these alternatives, however
the text is laid out.
-/

namespace JavaFrontend

open GrammarLexeme (IsIdentifier LaidOut isNameStart isNamePart)

/-! ### Writing -/

/-- The symbol for a kind of token: its name if it has one, or else its spelling in quotes. -/
def Kind.symbol (kind : Kind) : GrammarLexeme :=
  match kind.grammarName with
  | some name => .name name
  | none => .quoted kind.text

namespace Element

mutual

/-- The symbols that an element is written with. -/
def symbols : Element → List GrammarLexeme
  | .token kind => [kind.symbol]
  | .rule name => [.name name]
  | .optional body => .openOptional :: (rowSymbols body ++ [.closeOptional])
  | .repeated body => .openRepeated :: (rowSymbols body ++ [.closeRepeated])

/-- The symbols that a row of elements is written with. -/
def rowSymbols : List Element → List GrammarLexeme
  | [] => []
  | element :: rest => element.symbols ++ rowSymbols rest

end

/-- Capitals, digits and underscores, with a letter among them. -/
def TokenLike (name : String) : Prop :=
  (∀ c ∈ name.toList, c.isUpper ∨ c.isDigit ∨ c = '_') ∧ ∃ c ∈ name.toList, c.isUpper

mutual

/-- Whether there is a way to write the element: names of rules are identifiers that do not look
like those of tokens, and groups are not empty. -/
def Writable : Element → Prop
  | .token _ => True
  | .rule name => IsIdentifier name ∧ ¬ TokenLike name
  | .optional body | .repeated body => body ≠ [] ∧ RowWritable body

def RowWritable : List Element → Prop
  | [] => True
  | element :: rest => element.Writable ∧ RowWritable rest

end

end Element

open Element (rowSymbols RowWritable TokenLike)

/-- Whether there is a way to write the alternative, which may be empty. -/
structure Alternative.Writable (alternative : Alternative) : Prop where
  name : IsIdentifier alternative.name
  elements : RowWritable alternative.elements

namespace GrammarText

/-- The symbols of one or more rows, with bars between them. -/
def rowsSymbols (first : List Element) : List (List Element) → List GrammarLexeme
  | [] => rowSymbols first
  | next :: more => rowSymbols first ++ .bar :: rowsSymbols next more

/-- The symbols are a writing of the alternatives: they are divided into runs of alternatives of
one name, and each run is a definition of that name. -/
inductive Defines : List GrammarLexeme → List Alternative → Prop where
  | nil : Defines [] []
  | cons {symbols : List GrammarLexeme} {alternatives : List Alternative} (rule : String)
      (first : List Element) (more : List (List Element)) : Defines symbols alternatives →
    Defines (.name rule :: .define :: (rowsSymbols first more ++ .semicolon :: symbols))
      ((first :: more).map (⟨rule, ·⟩) ++ alternatives)

/-- The text is a writing of the alternatives, in some layout. -/
def IsWriting (alternatives : List Alternative) (text : List Char) : Prop :=
  ∃ symbols, Defines symbols alternatives ∧ LaidOut symbols text

/-! ### Single symbols -/

variable {rule name : String} {element : Element} {symbol : GrammarLexeme}
  {row elements : List Element}

theorem isTokenName_iff : isTokenName name ↔ TokenLike name := by
  simp [isTokenName, TokenLike, or_assoc, and_comm]

theorem symbol_of_name {kind : Kind} (named : kind.grammarName = some name) :
    kind.symbol = .name name := by
  rw [Kind.symbol, named]

theorem symbol_of_text {kind : Kind} (unnamed : kind.grammarName = none) :
    kind.symbol = .quoted kind.text := by
  rw [Kind.symbol, unnamed]

/-- The names of kinds are identifiers that look like names of tokens. -/
private theorem grammarName_iff (kind : Kind) (named : kind.grammarName = some name) :
    (∃ first rest, name.toList = first :: rest ∧ isNameStart first ∧ rest.all isNamePart) ∧
      isTokenName name ∧ Kind.ofGrammarName? name = some kind := by
  have all : ∀ kind ∈ Kind.all, ∀ name ∈ kind.grammarName,
      (name.toList.head?.any isNameStart && name.toList.tail.all isNamePart) ∧
        isTokenName name ∧ Kind.ofGrammarName? name = some kind := by decide +kernel
  obtain ⟨identifier, rest⟩ := all kind kind.mem_all name named
  refine ⟨?_, rest⟩
  cases same : name.toList with
  | nil => simp [same] at identifier
  | cons first more => exact ⟨first, more, rfl, by simpa [same] using identifier⟩

/-- The spellings of kinds can stand in quotes. -/
private theorem text_proper (kind : Kind) (unnamed : kind.grammarName = none) :
    (kind.text.toList ≠ [] ∧ '\'' ∉ kind.text.toList ∧ '\n' ∉ kind.text.toList) ∧
      Kind.ofText? kind.text = some kind := by
  have all : ∀ kind ∈ Kind.all, kind.grammarName = none →
      (kind.text.toList ≠ [] ∧ '\'' ∉ kind.text.toList ∧ '\n' ∉ kind.text.toList) ∧
        Kind.ofText? kind.text = some kind := by decide +kernel
  exact all kind kind.mem_all unnamed

theorem proper_symbol (kind : Kind) : kind.symbol.Proper := by
  cases found : kind.grammarName with
  | some name =>
    obtain ⟨⟨first, rest, same, start, parts⟩, -⟩ := grammarName_iff kind found
    rw [symbol_of_name found]
    exact ⟨first, rest, same, start, List.all_eq_true.mp parts⟩
  | none =>
    rw [symbol_of_text found]
    exact (text_proper kind found).1

theorem element?_symbol (kind : Kind) : element? rule kind.symbol = .ok (some (.token kind)) := by
  cases found : kind.grammarName with
  | some name =>
    obtain ⟨-, token, known⟩ := grammarName_iff kind found
    rw [symbol_of_name found]
    simp [element?, token, known]
  | none =>
    rw [symbol_of_text found]
    simp [element?, (text_proper kind found).2]

/-- An element that a single symbol is read as is written as that symbol. -/
theorem symbols_of_element? (proper : symbol.Proper)
    (read : element? rule symbol = .ok (some element)) :
    element.symbols = [symbol] ∧ element.Writable := by
  cases symbol with
  | name name =>
    simp only [element?] at read
    split at read
    · split at read
      · next kind known =>
        cases read
        have named : kind.grammarName = some name := by
          simpa using List.find?_some known
        exact ⟨congrArg ([·]) (symbol_of_name named), trivial⟩
      · cases read
    · next other =>
      cases read
      exact ⟨rfl, proper, mt isTokenName_iff.mpr other⟩
  | quoted text =>
    simp only [element?] at read
    split at read
    · next kind known =>
      cases read
      have spelled : kind.text = text := by simpa using List.find?_some known
      have fixed : ∀ kind ∈ Kind.fixed, kind.grammarName = none := by decide
      have symbol := symbol_of_text (fixed kind (List.mem_of_find?_eq_some known))
      exact ⟨congrArg ([·]) (spelled ▸ symbol), trivial⟩
    · cases read
  | _ => cases read

/-! ### Reading what is written -/

variable {last line : Nat} {groups : List OpenGroup} {rest : List (GrammarLexeme × Nat)}
  {lexemes : List (GrammarLexeme × Nat)} {symbols : List GrammarLexeme}

theorem alternatives_element (read : element? rule symbol = .ok (some element)) :
    alternatives last rule groups elements ((symbol, line) :: rest) =
      alternatives last rule groups (element :: elements) rest := by
  rw [alternatives.eq_def]
  dsimp only
  rw [read]
  rfl

theorem alternatives_opening (isRepeated : Bool) :
    alternatives last rule groups elements
        ((if isRepeated then .openRepeated else .openOptional, line) :: rest) =
      alternatives last rule (⟨isRepeated, line, elements⟩ :: groups) [] rest := by
  cases isRepeated <;> rfl

theorem alternatives_closing {group : OpenGroup} (some : elements ≠ []) :
    alternatives last rule (group :: groups) elements ((group.closing, line) :: rest) =
      alternatives last rule groups (group.close elements.reverse :: group.before) rest := by
  obtain ⟨first, more, rfl⟩ := List.exists_cons_of_ne_nil some
  obtain ⟨isRepeated, opened, before⟩ := group
  cases isRepeated <;> rfl

theorem exists_cons_of_map (same : lexemes.map (·.1) = symbol :: symbols) :
    ∃ line rest, lexemes = (symbol, line) :: rest ∧ rest.map (·.1) = symbols := by
  obtain ⟨⟨_, line⟩, rest, rfl, rfl, later⟩ := List.map_eq_cons_iff.mp same
  exact ⟨line, rest, rfl, later⟩

/-- A group whose body is read as what it is written for is read as that group. -/
theorem alternatives_group (isRepeated : Bool) {body : List Element} (filled : body ≠ [])
    (same : lexemes.map (·.1) = (if isRepeated then .openRepeated else .openOptional) ::
      (rowSymbols body ++
        [if isRepeated then GrammarLexeme.closeRepeated else .closeOptional]))
    (reads : ∀ (groups : List OpenGroup) (inner rest : List (GrammarLexeme × Nat)),
      inner.map (·.1) = rowSymbols body →
      alternatives last rule groups [] (inner ++ rest) =
        alternatives last rule groups body.reverse rest) :
    alternatives last rule groups elements (lexemes ++ rest) =
      alternatives last rule groups
        ((if isRepeated then .repeated body else .optional body) :: elements) rest := by
  obtain ⟨line, _, rfl, behind⟩ := exists_cons_of_map same
  obtain ⟨inner, _, rfl, within, closing⟩ := List.map_eq_append_iff.mp behind
  obtain ⟨closed, _, rfl, none⟩ := exists_cons_of_map closing
  obtain rfl := List.map_eq_nil_iff.mp none
  rw [List.cons_append, List.append_assoc, alternatives_opening, reads _ _ _ within]
  refine (alternatives_closing (mt List.reverse_eq_nil_iff.mp filled)).trans ?_
  rw [List.reverse_reverse]
  rfl

mutual

/-- The symbols of an element are read as that element. -/
theorem alternatives_symbols (groups : List OpenGroup) (elements : List Element)
    (lexemes rest : List (GrammarLexeme × Nat)) : (element : Element) → element.Writable →
    lexemes.map (·.1) = element.symbols →
    alternatives last rule groups elements (lexemes ++ rest) =
      alternatives last rule groups (element :: elements) rest
  | .token kind, _, same => by
    obtain ⟨line, _, rfl, none⟩ := exists_cons_of_map same
    obtain rfl := List.map_eq_nil_iff.mp none
    exact alternatives_element (element?_symbol kind)
  | .rule name, writable, same => by
    obtain ⟨line, _, rfl, none⟩ := exists_cons_of_map same
    obtain rfl := List.map_eq_nil_iff.mp none
    refine alternatives_element ?_
    have other : ¬ isTokenName name := mt isTokenName_iff.mp writable.2
    simp [element?, other]
  | .optional body, writable, same =>
    alternatives_group false writable.1 same fun groups inner rest within => by
      simpa using alternatives_row groups [] inner rest body writable.2 within
  | .repeated body, writable, same =>
    alternatives_group true writable.1 same fun groups inner rest within => by
      simpa using alternatives_row groups [] inner rest body writable.2 within

/-- The symbols of a row are read as that row. -/
theorem alternatives_row (groups : List OpenGroup) (elements : List Element)
    (lexemes rest : List (GrammarLexeme × Nat)) : (row : List Element) → RowWritable row →
    lexemes.map (·.1) = rowSymbols row →
    alternatives last rule groups elements (lexemes ++ rest) =
      alternatives last rule groups (row.reverse ++ elements) rest
  | [], _, same => by
    obtain rfl := List.map_eq_nil_iff.mp same
    rfl
  | element :: row, writable, same => by
    obtain ⟨here, later, rfl, first, behind⟩ := List.map_eq_append_iff.mp same
    rw [List.append_assoc, alternatives_symbols groups elements here _ element writable.1 first,
      alternatives_row groups _ later rest row writable.2 behind, List.reverse_cons,
      List.append_assoc]
    rfl

end

/-- The rows of a definition are read as its alternatives. -/
theorem alternatives_rows {others : List Alternative} (first : List Element)
    (more : List (List Element)) (writable : ∀ row ∈ first :: more, RowWritable row)
    (same : lexemes.map (·.1) = rowsSymbols first more)
    (read : definitions last rest = .ok others) :
    alternatives last rule [] [] (lexemes ++ (.semicolon, line) :: rest) =
      .ok ((first :: more).map (⟨rule, ·⟩) ++ others) := by
  induction more generalizing first lexemes with
  | nil =>
    have close : alternatives last rule [] first.reverse ((.semicolon, line) :: rest) =
        (definitions last rest).map (⟨rule, first.reverse.reverse⟩ :: ·) := by
      change (definitions last rest >>= fun others => pure (_ :: others)) = _
      cases definitions last rest <;> rfl
    rw [alternatives_row [] [] lexemes _ first (writable first List.mem_cons_self) same,
      List.append_nil, close, read, List.reverse_reverse]
    rfl
  | cons next more ih =>
    obtain ⟨here, _, rfl, row, behind⟩ := List.map_eq_append_iff.mp same
    obtain ⟨bar, later, rfl, remaining⟩ := exists_cons_of_map behind
    have rows := ih next (fun row member => writable row (List.mem_cons_of_mem _ member)) remaining
    have go (rest : List (GrammarLexeme × Nat)) :
        alternatives last rule [] first.reverse ((.bar, bar) :: rest) =
          (alternatives last rule [] [] rest).map (⟨rule, first.reverse.reverse⟩ :: ·) := by
      change (alternatives last rule [] [] rest >>= fun others => pure (_ :: others)) = _
      cases alternatives last rule [] [] rest <;> rfl
    rw [List.append_assoc, alternatives_row [] [] here _ first (writable first List.mem_cons_self) row,
      List.append_nil, List.cons_append, go, rows, List.reverse_reverse]
    rfl

/-- Definitions are read as the alternatives that they are a writing of. -/
theorem Defines.read {written : List Alternative} (defines : Defines symbols written)
    (writable : ∀ alternative ∈ written, alternative.Writable)
    (same : lexemes.map (·.1) = symbols) : definitions last lexemes = .ok written := by
  induction defines generalizing lexemes with
  | nil =>
    obtain rfl := List.map_eq_nil_iff.mp same
    rfl
  | cons rule first more _ ih =>
    obtain ⟨here, later⟩ := List.forall_mem_append.mp writable
    obtain ⟨_, _, rfl, behindName⟩ := exists_cons_of_map same
    obtain ⟨_, _, rfl, behindDefine⟩ := exists_cons_of_map behindName
    obtain ⟨rows, _, rfl, row, behindRows⟩ := List.map_eq_append_iff.mp behindDefine
    obtain ⟨_, rest, rfl, remaining⟩ := exists_cons_of_map behindRows
    refine alternatives_rows first more (fun row member => ?_) row (ih later remaining)
    exact (here _ (List.mem_map_of_mem member)).elements

/-! ### What is read was written -/

variable {written others : List Alternative}

/-- What a symbol can be in a text that is read: an element, the opening or the closing of a group,
or the end of an alternative outside all groups. -/
theorem alternatives_cases
    (read : alternatives last rule groups elements ((symbol, line) :: rest) = .ok written) :
    (∃ element, element? rule symbol = .ok (some element) ∧
      alternatives last rule groups (element :: elements) rest = .ok written) ∨
    (∃ isRepeated, symbol = (if isRepeated then .openRepeated else .openOptional) ∧
      alternatives last rule (⟨isRepeated, line, elements⟩ :: groups) [] rest = .ok written) ∨
    (∃ group outer, groups = group :: outer ∧ symbol = group.closing ∧ elements ≠ [] ∧
      alternatives last rule outer (group.close elements.reverse :: group.before) rest =
        .ok written) ∨
    (groups = [] ∧ ∃ others, written = ⟨rule, elements.reverse⟩ :: others ∧
      (symbol = .bar ∧ alternatives last rule [] [] rest = .ok others ∨
        symbol = .semicolon ∧ definitions last rest = .ok others)) := by
  rw [alternatives.eq_def] at read
  dsimp only at read
  cases found : element? rule symbol with
  | error reason =>
    rw [found] at read
    cases read
  | ok element =>
    rw [found] at read
    cases element with
    | some element => exact .inl ⟨element, rfl, read⟩
    | none =>
      simp only [bind, Except.bind] at read
      split at read
      · exact .inr (.inl ⟨false, rfl, read⟩)
      · exact .inr (.inl ⟨true, rfl, read⟩)
      · split at read
        · cases read
        next others more =>
        cases read
        exact .inr (.inr (.inr ⟨rfl, others, rfl, .inl ⟨rfl, more⟩⟩))
      · split at read
        · cases read
        next others more =>
        cases read
        exact .inr (.inr (.inr ⟨rfl, others, rfl, .inr ⟨rfl, more⟩⟩))
      · split at read
        next closes =>
          split at read
          · cases read
          next filled =>
          exact .inr (.inr (.inl ⟨_, _, rfl, closes, by simpa using filled, read⟩))
        · cases read
      · cases read

theorem rowSymbols_append (first second : List Element) :
    rowSymbols (first ++ second) = rowSymbols first ++ rowSymbols second := by
  induction first with
  | nil => rfl
  | cons element first ih => simp [rowSymbols, ih]

theorem rowWritable_append {first second : List Element} :
    RowWritable (first ++ second) ↔ RowWritable first ∧ RowWritable second := by
  induction first with
  | nil => simp [RowWritable]
  | cons element first ih => simp [RowWritable, ih, and_assoc]

/-- The symbols read of the groups that are open. -/
def openSymbols : List OpenGroup → List GrammarLexeme
  | [] => []
  | group :: outer => openSymbols outer ++ (rowSymbols group.before.reverse ++
      [if group.isRepeated then .openRepeated else .openOptional])

/-- The symbols read of a definition, inside the groups and behind the elements. -/
def readSymbols (groups : List OpenGroup) (elements : List Element) : List GrammarLexeme :=
  openSymbols groups ++ rowSymbols elements.reverse

/-- Whether there is a way to write what has been read of an alternative. -/
def ReadWritable (groups : List OpenGroup) (elements : List Element) : Prop :=
  (∀ group ∈ groups, RowWritable group.before.reverse) ∧ RowWritable elements.reverse

theorem readSymbols_cons : readSymbols groups (element :: elements) =
    readSymbols groups elements ++ element.symbols := by
  simp [readSymbols, rowSymbols_append, rowSymbols]

theorem readWritable_cons : ReadWritable groups (element :: elements) ↔
    ReadWritable groups elements ∧ element.Writable := by
  simp [ReadWritable, rowWritable_append, RowWritable, and_assoc]

/-- A group that is closed adds its closing to what has been read. -/
theorem readSymbols_close (group : OpenGroup) :
    readSymbols groups (group.close elements.reverse :: group.before) =
      readSymbols (group :: groups) elements ++ [group.closing] := by
  obtain ⟨isRepeated, opened, before⟩ := group
  rw [readSymbols_cons]
  cases isRepeated <;>
    simp [readSymbols, openSymbols, OpenGroup.close, OpenGroup.closing, Element.symbols]

theorem readWritable_close {group : OpenGroup} (writable : ReadWritable (group :: groups) elements)
    (filled : elements ≠ []) :
    ReadWritable groups (group.close elements.reverse :: group.before) := by
  obtain ⟨outer, inner⟩ := writable
  obtain ⟨before, outer⟩ := List.forall_mem_cons.mp outer
  have body : elements.reverse ≠ [] ∧ RowWritable elements.reverse :=
    ⟨mt List.reverse_eq_nil_iff.mp filled, inner⟩
  refine readWritable_cons.mpr ⟨⟨outer, before⟩, ?_⟩
  obtain ⟨isRepeated, opened, before⟩ := group
  cases isRepeated <;> exact body

/-- With the symbols read before, the symbols are the rest of a definition and other ones. -/
def Completes (rule : String) (before symbols : List GrammarLexeme) (written : List Alternative) :
    Prop :=
  ∃ first more others rest, written = (first :: more).map (⟨rule, ·⟩) ++ others ∧
    Defines rest others ∧ before ++ symbols = rowsSymbols first more ++ .semicolon :: rest

mutual

/-- Definitions that are read are a writing of what they are read as. -/
theorem defines_of_definitions : (lexemes : List (GrammarLexeme × Nat)) →
    (∀ lexeme ∈ lexemes, lexeme.1.Proper) → {written : List Alternative} →
    definitions last lexemes = .ok written →
    Defines (lexemes.map (·.1)) written ∧ ∀ alternative ∈ written, alternative.Writable
  | [], _, written, read => by
    cases read
    exact ⟨.nil, nofun⟩
  | (.name rule, _) :: (.define, _) :: rest, proper, written, read => by
    obtain ⟨named, proper⟩ := List.forall_mem_cons.mp proper
    obtain ⟨-, proper⟩ := List.forall_mem_cons.mp proper
    obtain ⟨completes, writable⟩ :=
      completes_of_alternatives rest proper named [] [] ⟨nofun, trivial⟩ read
    obtain ⟨first, more, others, symbols, rfl, defines, same⟩ := completes
    refine ⟨?_, writable⟩
    have whole := Defines.cons rule first more defines
    rw [← same] at whole
    exact whole

/-- And so are the alternatives of a definition of which some has been read. -/
theorem completes_of_alternatives : (lexemes : List (GrammarLexeme × Nat)) →
    (∀ lexeme ∈ lexemes, lexeme.1.Proper) → {rule : String} → IsIdentifier rule →
    (groups : List OpenGroup) → (elements : List Element) → ReadWritable groups elements →
    {written : List Alternative} → alternatives last rule groups elements lexemes = .ok written →
    Completes rule (readSymbols groups elements) (lexemes.map (·.1)) written ∧
      ∀ alternative ∈ written, alternative.Writable
  | [], _, _, _, groups, _, _, _, read => by cases groups <;> cases read
  | (symbol, line) :: rest, proper, rule, named, groups, elements, sound, written, read => by
    obtain ⟨here, later⟩ := List.forall_mem_cons.mp proper
    rcases alternatives_cases read with ⟨element, single, more⟩ | ⟨isRepeated, rfl, more⟩ |
      ⟨group, outer, rfl, rfl, filled, more⟩ | ⟨rfl, others, rfl, ends⟩
    · obtain ⟨same, writable⟩ := symbols_of_element? here single
      have whole := completes_of_alternatives rest later named _ _
        (readWritable_cons.mpr ⟨sound, writable⟩) more
      rwa [readSymbols_cons, same, Completes, List.append_assoc] at whole
    · have whole := completes_of_alternatives rest later named
        (⟨isRepeated, line, elements⟩ :: groups) [] ⟨List.forall_mem_cons.mpr ⟨sound.2, sound.1⟩, trivial⟩ more
      simpa [Completes, readSymbols, openSymbols, rowSymbols] using whole
    · have whole := completes_of_alternatives rest later named _ _
        (readWritable_close sound filled) more
      rwa [readSymbols_close, Completes, List.append_assoc] at whole
    · have row : Alternative.Writable ⟨rule, elements.reverse⟩ := ⟨named, sound.2⟩
      rcases ends with ⟨rfl, further⟩ | ⟨rfl, further⟩
      · obtain ⟨⟨first, more, others, symbols, rfl, defines, same⟩, writable⟩ :=
          completes_of_alternatives rest later named [] [] ⟨nofun, trivial⟩ further
        refine ⟨⟨elements.reverse, first :: more, others, symbols, rfl, defines, ?_⟩,
          List.forall_mem_cons.mpr ⟨row, writable⟩⟩
        have same : rest.map (·.1) = rowsSymbols first more ++ .semicolon :: symbols := same
        simp [readSymbols, openSymbols, rowsSymbols, same]
      · obtain ⟨defines, writable⟩ := defines_of_definitions rest later further
        refine ⟨⟨elements.reverse, [], others, _, rfl, defines, ?_⟩,
          List.forall_mem_cons.mpr ⟨row, writable⟩⟩
        simp [readSymbols, openSymbols, rowsSymbols]

end

/-! ### Texts -/

mutual

theorem proper_symbols : (element : Element) → element.Writable →
    ∀ symbol ∈ element.symbols, symbol.Proper
  | .token kind, _ => by simpa [Element.symbols] using proper_symbol kind
  | .rule name, writable => by
    simpa [Element.symbols, GrammarLexeme.Proper] using writable.1
  | .optional body, writable | .repeated body, writable => by
    have inner := proper_rowSymbols body writable.2
    simpa [Element.symbols, or_imp, forall_and, GrammarLexeme.Proper] using inner

theorem proper_rowSymbols : (row : List Element) → RowWritable row →
    ∀ symbol ∈ rowSymbols row, symbol.Proper
  | [], _ => nofun
  | element :: row, writable => List.forall_mem_append.mpr
    ⟨proper_symbols element writable.1, proper_rowSymbols row writable.2⟩

end

theorem proper_rowsSymbols {first : List Element} {more : List (List Element)}
    (writable : ∀ row ∈ first :: more, RowWritable row) :
    ∀ symbol ∈ rowsSymbols first more, symbol.Proper := by
  induction more generalizing first with
  | nil => exact proper_rowSymbols first (writable first List.mem_cons_self)
  | cons next more ih =>
    obtain ⟨here, later⟩ := List.forall_mem_cons.mp writable
    exact List.forall_mem_append.mpr
      ⟨proper_rowSymbols first here, List.forall_mem_cons.mpr ⟨trivial, ih later⟩⟩

theorem Defines.proper (defines : Defines symbols written)
    (writable : ∀ alternative ∈ written, alternative.Writable) :
    ∀ symbol ∈ symbols, symbol.Proper := by
  induction defines with
  | nil => exact nofun
  | cons rule first more _ ih =>
    obtain ⟨here, later⟩ := List.forall_mem_append.mp writable
    have rows : ∀ row ∈ first :: more, RowWritable row := fun row member =>
      (here _ (List.mem_map_of_mem member)).elements
    refine List.forall_mem_cons.mpr ⟨?_, List.forall_mem_cons.mpr ⟨trivial,
      List.forall_mem_append.mpr ⟨proper_rowsSymbols rows,
        List.forall_mem_cons.mpr ⟨trivial, ih later⟩⟩⟩⟩
    exact (here ⟨rule, first⟩ List.mem_cons_self).name

/-- A text is read as some alternatives exactly if there is a way to write them and the text is
such a writing, in whatever layout. -/
theorem read_eq_ok_iff {text : String} : read text = .ok written ↔
    (∀ alternative ∈ written, alternative.Writable) ∧ IsWriting written text.toList := by
  unfold GrammarText.read
  constructor
  · intro read
    cases scanned : GrammarLexeme.scanAll 1 text.toList with
    | error reason =>
      rw [scanned] at read
      cases read
    | ok lexemes =>
      rw [scanned] at read
      obtain ⟨laidOut, proper⟩ :=
        GrammarLexeme.follows_of_scanAll scanned
          (nofun : false = true → GrammarLexeme.Ends text.toList)
      obtain ⟨defines, writable⟩ := defines_of_definitions lexemes proper read
      exact ⟨writable, _, defines, laidOut⟩
  · rintro ⟨writable, symbols, defines, laidOut⟩
    obtain ⟨lexemes, scanned, rfl⟩ := laidOut.scanned (defines.proper writable) 1
    rw [scanned]
    exact defines.read writable rfl

end GrammarText

end JavaFrontend
