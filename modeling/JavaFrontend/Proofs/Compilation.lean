import JavaFrontend.Compilation
import JavaFrontend.Proofs.Source.Discovery
import Mathlib.Data.List.Forall2

/-!
What a compilation comes to. Every path that cannot be read and every file that cannot be parsed is
counted once and reported once, with two exceptions: nothing is parsed if not all could be read, and
nothing is reported if the parser itself is to blame (`Compilation.outcome_of_run`).
-/

namespace JavaFrontend

variable {α β : Type}

/-! ### Steps of a compilation -/

namespace CompileM

/-- With these diagnostics reported before, the step comes to the outcome, and those are reported
after it. What is in the log makes no difference. -/
def Leaves (step : CompileM α) (before : List Diagnostic) (outcome : Except CompileError α)
    (after : List Diagnostic) : Prop :=
  ∀ log, ∃ log', step.run ⟨⟨before⟩, log⟩ = (outcome, ⟨⟨after⟩, log'⟩)

theorem run_bind (step : CompileM α) (go : α → CompileM β) (so : CompilationReport) :
    (step >>= go).run so = match step.run so with
      | (.ok value, so) => (go value).run so
      | (.error error, so) => (.error error, so) := by
  change (ExceptT.bindCont go (step.run so).1).run (step.run so).2 = _
  rcases step.run so with ⟨_ | _, left⟩ <;> rfl

namespace Leaves

variable {step : CompileM α} {go : α → CompileM β} {before between after : List Diagnostic}
  {value : α} {error : CompileError} {outcome : Except CompileError β}

theorem pure (value : α) (before : List Diagnostic) :
    Leaves (Pure.pure value) before (.ok value) before := fun log => ⟨log, rfl⟩

theorem bind (first : Leaves step before (.ok value) between)
    (then_ : Leaves (go value) between outcome after) :
    Leaves (step >>= go) before outcome after := by
  intro log
  obtain ⟨log', ran⟩ := first log
  obtain ⟨last, went⟩ := then_ log'
  exact ⟨last, by rw [run_bind, ran]; exact went⟩

theorem fail (first : Leaves step before (.error error) after) :
    Leaves (step >>= go) before (.error error) after := by
  intro log
  obtain ⟨log', ran⟩ := first log
  exact ⟨log', by rw [run_bind, ran]⟩

/-- A loop adds up what its rounds report. -/
theorem forM {items : List α} {say : α → CompileM PUnit} {reports : α → List Diagnostic}
    (each : ∀ item before, Leaves (say item) before (.ok ⟨⟩) (before ++ reports item)) :
    Leaves (forIn items PUnit.unit fun item _ => do
      say item
      Pure.pure (ForInStep.yield PUnit.unit)) before (.ok ⟨⟩) (before ++ items.flatMap reports) := by
  induction items generalizing before with
  | nil =>
    rw [List.flatMap_nil, List.append_nil]
    exact .pure _ _
  | cons item items ih =>
    rw [List.forIn_cons, List.flatMap_cons, ← List.append_assoc]
    exact .bind (.bind (each item before) (.pure _ _)) ih

/-- A loop that only logs reports nothing. -/
theorem quiet {items : List α} {say : α → CompileM PUnit}
    (each : ∀ item, Leaves (say item) before (.ok ⟨⟩) before) :
    Leaves (forIn items PUnit.unit fun item _ => do
      say item
      Pure.pure (ForInStep.yield PUnit.unit)) before (.ok ⟨⟩) before := by
  induction items with
  | nil => exact .pure _ _
  | cons item items ih =>
    rw [List.forIn_cons]
    exact .bind (.bind (each item) (.pure _ _)) ih

end Leaves

theorem leaves_log (level : LogLevel) (message : String) (before : List Diagnostic) :
    Leaves (log level message) before (.ok ⟨⟩) before := fun _ => ⟨_, rfl⟩

theorem leaves_report (diagnostic : Diagnostic) (before : List Diagnostic) :
    Leaves (report diagnostic) before (.ok ⟨⟩) (before ++ [diagnostic]) := fun log => ⟨log, rfl⟩

variable {step : CompileM α} {before after : List Diagnostic} {outcome : Except CompileError α}

theorem leaves_stage (settings : CompilationSettings) (name : Stage)
    (leaves : Leaves step before outcome after) :
    Leaves (stage settings name step) before outcome after := by
  intro log
  obtain ⟨log', ran⟩ := leaves log
  -- A step from one report is as good as one that has its end there.
  have same : (stage settings name step).run ⟨⟨before⟩, log⟩ =
      (stage settings name (ExceptT.mk fun _ => step.run ⟨⟨before⟩, log⟩)).run ⟨⟨before⟩, log⟩ :=
    rfl
  refine ⟨log' ++ [⟨if settings.reportTime then .info else .debug, name.display⟩], ?_⟩
  rw [same, ran]
  cases outcome <;> rfl

theorem leaves_check (name : Stage) (failures : Nat) (before : List Diagnostic) :
    Leaves (check name failures) before
      (if before.any (·.isError) then .error (.stageFailed name failures) else .ok ⟨⟩) before := by
  intro log
  cases failed : before.any (·.isError) with
  | false =>
    refine ⟨log, ?_⟩
    rw [check, run_bind]
    change (if before.any (·.isError) then _ else _ : CompileM PUnit).run _ = _
    rw [failed]
    rfl
  | true =>
    refine ⟨log ++ [⟨.warn, (CompileError.stageFailed name failures).message⟩], ?_⟩
    rw [check, run_bind]
    change (if before.any (·.isError) then _ else _ : CompileM PUnit).run _ = _
    rw [failed]
    rfl

end CompileM

namespace Compilation

open CompileM Discovery

variable {parser : Parser α} {failFast : Bool}

/-! ### Finding and reading -/

/-- The texts are those in the files. -/
def AreTexts (files : List FoundFile) (texts : List SourceText) : Prop :=
  List.Forall₂ (fun file text => text.origin = file.path ∧
    String.fromUTF8? file.contents = some text.text) files texts

/-- The paths that cannot be read: the roots that lead nowhere, and the files that are no text. -/
def unreadable (tree : FileTree) (roots : List Path) (files : List FoundFile) : List Path :=
  roots.filter (fun root => (tree.find? root).isNone) ++
    (files.filter fun file => (String.fromUTF8? file.contents).isNone).map (·.path)

/-- The files that are read as texts, and the paths of those that are none. -/
theorem read_files (files : List FoundFile) :
    (files.map readText).filterMap (fun
        | .ok _ => none
        | .error path => some path) =
      (files.filter fun file => (String.fromUTF8? file.contents).isNone).map (·.path) ∧
    ((files.filter fun file => (String.fromUTF8? file.contents).isNone) = [] →
      AreTexts files ((files.map readText).filterMap (·.toOption))) := by
  induction files with
  | nil => exact ⟨rfl, fun _ => .nil⟩
  | cons file files ih =>
    obtain ⟨paths, texts⟩ := ih
    cases contents : String.fromUTF8? file.contents with
    | none =>
      have read : readText file = .error file.path := by rw [readText, contents]
      refine ⟨?_, fun none => ?_⟩
      · rw [List.map_cons, read, List.filter_cons_of_pos (by simp [contents]), List.map_cons,
          ← paths]
        rfl
      · rw [List.filter_cons_of_pos (by simp [contents])] at none
        cases none
    | some text =>
      have read : readText file = .ok ⟨file.path, text⟩ := by rw [readText, contents]
      refine ⟨?_, fun none => ?_⟩
      · rw [List.map_cons, read, List.filter_cons_of_neg (by simp [contents]), ← paths]
        rfl
      · rw [List.filter_cons_of_neg (by simp [contents])] at none
        rw [List.map_cons, read]
        exact .cons ⟨rfl, contents⟩ (texts none)

theorem leaves_setupSources (tree : FileTree) (roots : List Path) :
    let found := (ofRoots tree roots).files
    let failed := unreadable tree roots found
    ∃ texts, Leaves (setupSources tree roots) [] (.ok (texts, failed.length))
        (failed.map .unreadable ++
          if texts.isEmpty && failed.isEmpty then [Diagnostic.noSources] else []) ∧
      (failed = [] → AreTexts found texts) := by
  intro found failed
  obtain ⟨paths, areTexts⟩ := read_files found
  refine ⟨(found.map readText).filterMap (·.toOption), ?_, fun none => ?_⟩
  · unfold setupSources
    refine .bind (.quiet fun path => leaves_log _ _ _) ?_
    extract_lets read texts own last
    have same : own = failed := congrArg₂ (· ++ ·) (missing_ofRoots tree roots) paths
    have ended (before : List Diagnostic) :
        Leaves (last ⟨⟩) before (.ok (texts, failed.length)) before := by
      rw [← same]
      exact .pure _ _
    rw [same]
    refine .bind (.forM fun path before => leaves_report _ before) ?_
    rw [List.nil_append, ← List.map_eq_flatMap]
    by_cases nothing : (texts.isEmpty && failed.isEmpty) = true
    · rw [if_pos nothing, if_pos nothing]
      exact .bind (leaves_report _ _) (ended _)
    · rw [if_neg nothing, if_neg nothing, List.append_nil]
      exact ended _
  · exact areTexts (List.map_eq_nil_iff.mp (List.append_eq_nil_iff.mp none).2)

/-! ### Parsing -/

/-- What the parser has against the text, if anything. -/
def fault? (parser : Parser α) (text : SourceText) : Option (Path × ParseError) :=
  match parser.parse (.ofString text.text) with
  | .ok _ => none
  | .error reason => some (text.origin, reason)

/-- Nothing is parsed after the text: the parser is to blame, or the first failure is enough. -/
def Ends (parser : Parser α) (failFast : Bool) (text : SourceText) : Prop :=
  ∃ fault, fault? parser text = some fault ∧ (fault.2.isInternal ∨ failFast)

/-- Of the first texts, those that are parsed are the second: all up to the first that ends it. -/
inductive ParsedOf (parser : Parser α) (failFast : Bool) :
    List SourceText → List SourceText → Prop where
  | nil : ParsedOf parser failFast [] []
  | last {text : SourceText} {rest : List SourceText} (ends : Ends parser failFast text) :
    ParsedOf parser failFast (text :: rest) [text]
  | next {text : SourceText} {rest parsed : List SourceText} (goesOn : ¬ Ends parser failFast text)
      (later : ParsedOf parser failFast rest parsed) :
    ParsedOf parser failFast (text :: rest) (text :: parsed)

theorem stops_iff {text : SourceText} :
    (Batch.parseOne parser text).stops failFast ↔ Ends parser failFast text := by
  unfold Ends fault? FileResult.stops FileResult.isInternal FileResult.isOk FileResult.errors
    Batch.parseOne
  cases parser.parse (.ofString text.text) <;> simp

theorem exists_parsedOf (parser : Parser α) (failFast : Bool) (texts : List SourceText) :
    ∃ parsed, ParsedOf parser failFast texts parsed ∧
      Batch.parse parser failFast texts = parsed.map (Batch.parseOne parser) := by
  induction texts with
  | nil => exact ⟨[], .nil, rfl⟩
  | cons text texts ih =>
    by_cases stops : (Batch.parseOne parser text).stops failFast
    · exact ⟨[text], .last (stops_iff.mp stops), by rw [Batch.parse]; exact if_pos stops⟩
    · obtain ⟨parsed, later, same⟩ := ih
      refine ⟨text :: parsed, .next (fun ends => stops (stops_iff.mpr ends)) later, ?_⟩
      rw [Batch.parse, List.map_cons, ← same]
      exact if_neg stops

/-- If nothing is wrong with what is parsed, all of it is. -/
theorem ParsedOf.eq_of_clean {texts parsed : List SourceText}
    (parsedOf : ParsedOf parser failFast texts parsed)
    (clean : parsed.filterMap (fault? parser) = []) : parsed = texts := by
  induction parsedOf with
  | nil => rfl
  | last ends =>
    obtain ⟨fault, found, -⟩ := ends
    rw [List.filterMap_cons_some found] at clean
    cases clean
  | @next text rest parsed goesOn later ih =>
    have none : fault? parser text = none ∧ parsed.filterMap (fault? parser) = [] := by
      simpa [List.filterMap_eq_nil_iff] using clean
    exact congrArg (text :: ·) (ih none.2)

/-- The tree of the text, if there is one. -/
def tree? (parser : Parser α) (text : SourceText) : Option (Path × α) :=
  (parser.parse (.ofString text.text)).toOption.map (text.origin, ·)

section Outcomes

variable {text : SourceText} {reason : ParseError} {tree : α}

theorem fault?_of_ok (ran : parser.parse (.ofString text.text) = .ok tree) :
    fault? parser text = none := by
  rw [fault?, ran]

theorem fault?_of_error (ran : parser.parse (.ofString text.text) = .error reason) :
    fault? parser text = some (text.origin, reason) := by
  rw [fault?, ran]

theorem leaves_reportResult_of_ok (before : List Diagnostic)
    (ran : parser.parse (.ofString text.text) = .ok tree) :
    Leaves (reportResult (Batch.parseOne parser text)) before (.ok (tree? parser text)) before := by
  rw [reportResult, Batch.parseOne, tree?, ran]
  exact .pure _ _

theorem leaves_reportResult_of_internal {reason : ReduceError} (before : List Diagnostic)
    (ran : parser.parse (.ofString text.text) = .error (.internal reason)) :
    Leaves (reportResult (Batch.parseOne parser text)) before
      (.error (.internal text.origin reason)) before := by
  rw [reportResult, Batch.parseOne, ran]
  exact fun log => ⟨log, rfl⟩

theorem leaves_reportResult_of_error (before : List Diagnostic)
    (ran : parser.parse (.ofString text.text) = .error reason) (blameless : ¬ reason.isInternal) :
    Leaves (reportResult (Batch.parseOne parser text)) before (.ok (tree? parser text))
      (before ++ [.unparsable text.origin reason]) := by
  rw [reportResult, Batch.parseOne, tree?, ran]
  cases reason with
  | internal => exact absurd rfl blameless
  | lexical | unexpected => exact .bind (leaves_report _ _) (.pure _ _)

end Outcomes

/-- The first text of which the parser is to blame for the failure is the last to be looked at. -/
theorem leaves_results_of_internal (parsed : List SourceText) {origin : Path}
    {reason : ReduceError} (before : List Diagnostic)
    (first : (parsed.filterMap (fault? parser)).find? (·.2.isInternal) =
      some (origin, .internal reason)) :
    ∃ after, Leaves ((parsed.map (Batch.parseOne parser)).mapM reportResult) before
      (.error (.internal origin reason)) after := by
  induction parsed generalizing before with
  | nil => cases first
  | cons text parsed ih =>
    rw [List.map_cons, List.mapM_cons]
    cases ran : parser.parse (.ofString text.text) with
    | ok tree =>
      rw [List.filterMap_cons_none (fault?_of_ok ran)] at first
      obtain ⟨after, rest⟩ := ih before first
      exact ⟨after, .bind (leaves_reportResult_of_ok before ran) (.fail rest)⟩
    | error fault =>
      rw [List.filterMap_cons_some (fault?_of_error ran)] at first
      by_cases blamed : fault.isInternal
      · simp only [List.find?_cons, blamed] at first
        cases first
        exact ⟨before, .fail (leaves_reportResult_of_internal before ran)⟩
      · simp only [List.find?_cons, blamed] at first
        obtain ⟨after, rest⟩ := ih _ first
        exact ⟨after, .bind (leaves_reportResult_of_error before ran blamed) (.fail rest)⟩

theorem leaves_results (parsed : List SourceText) (before : List Diagnostic)
    (blameless : ∀ fault ∈ parsed.filterMap (fault? parser), ¬ fault.2.isInternal) :
    Leaves ((parsed.map (Batch.parseOne parser)).mapM reportResult) before
      (.ok (parsed.map (tree? parser)))
      (before ++ (parsed.filterMap (fault? parser)).map fun fault =>
        .unparsable fault.1 fault.2) := by
  induction parsed generalizing before with
  | nil =>
    rw [List.filterMap_nil, List.map_nil, List.map_nil, List.map_nil, List.append_nil]
    exact .pure _ _
  | cons text parsed ih =>
    rw [List.map_cons, List.mapM_cons]
    cases ran : parser.parse (.ofString text.text) with
    | ok tree =>
      rw [List.filterMap_cons_none (fault?_of_ok ran)] at blameless ⊢
      refine .bind (leaves_reportResult_of_ok before ran) ?_
      exact .bind (ih before blameless) (.pure _ _)
    | error fault =>
      rw [List.filterMap_cons_some (fault?_of_error ran)] at blameless ⊢
      obtain ⟨here, later⟩ := List.forall_mem_cons.mp blameless
      rw [List.map_cons, List.map_cons, List.append_cons]
      refine .bind (leaves_reportResult_of_error before ran here) ?_
      exact .bind (ih _ later) (.pure _ _)

/-- Every text either has a tree or something is wrong with it. -/
theorem length_eq_countP_add (parsed : List SourceText) :
    (parsed.map (Batch.parseOne parser)).length =
      (parsed.map (Batch.parseOne parser)).countP (·.isOk) +
        (parsed.filterMap (fault? parser)).length := by
  induction parsed with
  | nil => rfl
  | cons text parsed ih =>
    rw [List.map_cons, List.length_cons, ih, List.countP_cons]
    cases ran : parser.parse (.ofString text.text) with
    | ok tree =>
      have isOk : (Batch.parseOne parser text).isOk := by
        rw [Batch.parseOne, ran]
        rfl
      rw [List.filterMap_cons_none (fault?_of_ok ran), if_pos isOk]
      omega
    | error fault =>
      have failed : ¬ (Batch.parseOne parser text).isOk := by
        rw [Batch.parseOne, ran]
        exact Bool.false_ne_true
      rw [List.filterMap_cons_some (fault?_of_error ran), if_neg failed, List.length_cons]
      omega

theorem failed_ofResults (parsed : List SourceText) :
    (BatchSummary.ofResults (parsed.map (Batch.parseOne parser))).failed =
      (parsed.filterMap (fault? parser)).length :=
  Nat.sub_eq_of_eq_add' (length_eq_countP_add parsed)

/-- Texts with nothing wrong with them have trees. -/
theorem trees_of_clean {texts : List SourceText} (clean : texts.filterMap (fault? parser) = []) :
    List.Forall₂ (fun text tree => tree.1 = text.origin ∧
      parser.parse (.ofString text.text) = .ok tree.2) texts
      ((texts.map (tree? parser)).filterMap id) := by
  induction texts with
  | nil => exact .nil
  | cons text texts ih =>
    cases ran : parser.parse (.ofString text.text) with
    | ok tree =>
      rw [List.filterMap_cons_none (fault?_of_ok ran)] at clean
      have own : tree? parser text = some (text.origin, tree) := by
        rw [tree?, ran]
        rfl
      rw [List.map_cons, own]
      exact .cons ⟨rfl, ran⟩ (ih clean)
    | error fault =>
      rw [List.filterMap_cons_some (fault?_of_error ran)] at clean
      cases clean

/-! ### Whole compilations -/

/-- The second stage, and what is done when it is over. -/
def parseStage (parser : Parser α) (settings : CompilationSettings) (texts : List SourceText) :
    CompileM (List (Path × α)) := do
  let (trees, failures) ← stage settings .parse (parseTexts parser settings.failFast texts)
  check .parse failures
  if settings.debug then
    for (origin, _) in trees do
      log .debug origin.text
  return trees

theorem stages_eq (parser : Parser α) (settings : CompilationSettings) (tree : FileTree) :
    stages parser settings tree = (do
      let (texts, failures) ← stage settings .setupSources (setupSources tree settings.sources)
      check .setupSources failures
      parseStage parser settings texts) := rfl

theorem any_isError_map {ι : Type} {diagnose : ι → Diagnostic}
    (all : ∀ item, (diagnose item).isError) (items : List ι) :
    (items.map diagnose).any (·.isError) = !items.isEmpty := by
  cases items with
  | nil => rfl
  | cons item items =>
    rw [List.map_cons, List.any_cons, all, Bool.true_or, List.isEmpty_cons, Bool.not_false]

section ParseStage

variable {settings : CompilationSettings} {texts parsed : List SourceText}
  {before : List Diagnostic}

theorem leaves_parseStage_of_internal {origin : Path} {reason : ReduceError}
    (same : Batch.parse parser settings.failFast texts = parsed.map (Batch.parseOne parser))
    (first : (parsed.filterMap (fault? parser)).find? (·.2.isInternal) =
      some (origin, .internal reason)) :
    ∃ after, Leaves (parseStage parser settings texts) before (.error (.internal origin reason))
      after := by
  obtain ⟨after, leaves⟩ := leaves_results_of_internal parsed before first
  refine ⟨after, .fail (leaves_stage settings .parse ?_)⟩
  rw [parseTexts, same]
  exact .bind (leaves_log _ _ _) (.fail leaves)

theorem leaves_parseTexts (before : List Diagnostic)
    (same : Batch.parse parser settings.failFast texts = parsed.map (Batch.parseOne parser))
    (blameless : ∀ fault ∈ parsed.filterMap (fault? parser), ¬ fault.2.isInternal) :
    Leaves (parseTexts parser settings.failFast texts) before
      (.ok ((parsed.map (tree? parser)).filterMap id, (parsed.filterMap (fault? parser)).length))
      (before ++ (parsed.filterMap (fault? parser)).map fun fault =>
        .unparsable fault.1 fault.2) := by
  rw [parseTexts, same, failed_ofResults]
  exact .bind (leaves_log _ _ _) (.bind (leaves_results parsed before blameless) (.pure _ _))

theorem leaves_parseStage_of_faults
    (same : Batch.parse parser settings.failFast texts = parsed.map (Batch.parseOne parser))
    (blameless : ∀ fault ∈ parsed.filterMap (fault? parser), ¬ fault.2.isInternal)
    (some : parsed.filterMap (fault? parser) ≠ []) :
    Leaves (parseStage parser settings texts) before
      (.error (.stageFailed .parse (parsed.filterMap (fault? parser)).length))
      (before ++ (parsed.filterMap (fault? parser)).map fun fault =>
        .unparsable fault.1 fault.2) := by
  refine .bind (leaves_stage settings .parse (leaves_parseTexts before same blameless)) (.fail ?_)
  have failed := leaves_check .parse (parsed.filterMap (fault? parser)).length
    (before ++ (parsed.filterMap (fault? parser)).map fun fault => .unparsable fault.1 fault.2)
  rwa [List.any_append, any_isError_map fun _ => rfl, List.isEmpty_eq_false_iff.mpr some,
    Bool.not_false, Bool.or_true, if_pos rfl] at failed

theorem leaves_parseStage_of_clean
    (same : Batch.parse parser settings.failFast texts = parsed.map (Batch.parseOne parser))
    (clean : parsed.filterMap (fault? parser) = []) (none : before.any (·.isError) = false) :
    Leaves (parseStage parser settings texts) before
      (.ok ((parsed.map (tree? parser)).filterMap id)) before := by
  have ran := leaves_parseTexts before same (by simp [clean])
  rw [clean, List.map_nil, List.append_nil] at ran
  refine .bind (leaves_stage settings .parse ran) ?_
  have passed := leaves_check .parse 0 before
  rw [none, if_neg Bool.false_ne_true] at passed
  refine .bind passed ?_
  extract_lets last
  by_cases debug : settings.debug
  · rw [if_pos debug]
    exact .bind (.quiet fun tree => leaves_log _ _ _) (.pure _ _)
  · rw [if_neg debug]
    exact .pure _ _

end ParseStage

/-- If all could be read, the compilation comes to what the second stage comes to. -/
theorem run_of_read {settings : CompilationSettings} {tree : FileTree} {texts : List SourceText}
    {before after : List Diagnostic} {outcome : Except CompileError (List (Path × α))}
    (begun : Leaves (stage settings .setupSources (setupSources tree settings.sources)) []
      (.ok (texts, 0)) before)
    (passes : before.any (·.isError) = false)
    (parses : Leaves (parseStage parser settings texts) before outcome after) :
    (run parser settings tree).1 = outcome ∧
      (run parser settings tree).2.diagnostics.reported = after := by
  have passed := leaves_check .setupSources 0 before
  rw [passes, if_neg Bool.false_ne_true] at passed
  obtain ⟨log, ran⟩ : ∃ log, (stages parser settings tree).run ⟨⟨[]⟩, []⟩ =
      (outcome, ⟨⟨after⟩, log⟩) := by
    rw [stages_eq]
    exact Leaves.bind begun (.bind passed parses) []
  exact ⟨congrArg (·.1) ran, congrArg (·.2.diagnostics.reported) ran⟩

end Compilation

end JavaFrontend
