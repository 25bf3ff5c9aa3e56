import WrenFront.Command
import WrenFront.Proofs.JsonLines

/-! What a check comes to. Its scripts are read one after another up to the first that cannot be
read. What is found wrong with them and whether the check fails does not depend on the format, which
only says where the findings are written. -/

namespace WrenFront

/-- The same diagnostic in a strict check. -/
def Diagnostic.hardened (diagnostic : Diagnostic) : Diagnostic :=
  if diagnostic.stage = .lexical then { diagnostic with severity := .error } else diagnostic

theorem Parsed.diagnostics_strict (parsed : Parsed) :
    parsed.diagnostics true = (parsed.diagnostics false).map Diagnostic.hardened := by
  simp only [diagnostics, List.map_append, List.map_map]
  rfl

/-- The sources of the scripts up to the first that cannot be read, and why that one cannot. -/
def ScriptFile.sources : List ScriptFile → List Source × Option Failure
  | [] => ([], none)
  | script :: rest =>
    match script.file.load script.path with
    | .error failure => ([], some failure)
    | .ok source => (source :: (sources rest).1, (sources rest).2)

namespace Command

theorem errorCount_append (first second : List Diagnostic) :
    errorCount (first ++ second) = errorCount first + errorCount second :=
  List.countP_append

theorem errorCount_problems (source : Source) (problems : List (Problem Token)) :
    errorCount (problems.map (Diagnostic.ofProblem source)) = problems.length := by
  rw [errorCount, List.countP_map, List.countP_eq_length]
  exact fun _ _ => rfl

theorem errorCount_lexicalErrors (source : Source) (strict : Bool) (errors : List LexicalError) :
    errorCount (errors.map (Diagnostic.ofLexicalError source strict)) =
      if strict then errors.length else 0 := by
  rw [errorCount, List.countP_map]
  cases strict with
  | false => exact List.countP_eq_zero.2 fun _ _ => Bool.false_ne_true
  | true => exact List.countP_eq_length.2 fun _ _ => rfl

/-- Lexical errors count only in a strict check. -/
theorem errorCount_diagnostics (parsed : Parsed) (strict : Bool) :
    errorCount (parsed.diagnostics strict) =
      parsed.problems.length + if strict then parsed.lexicalErrors.length else 0 := by
  rw [Parsed.diagnostics, errorCount_append, errorCount_problems, errorCount_lexicalErrors]

theorem errorCount_eq_zero {parsed : Parsed} {strict : Bool} :
    errorCount (parsed.diagnostics strict) = 0 ↔
      parsed.problems = [] ∧ (strict → parsed.lexicalErrors = []) := by
  rw [errorCount_diagnostics]
  cases strict <;> simp

theorem present_append (format : OutputFormat) (first second : List Diagnostic) :
    (present format first).append (present format second) = present format (first ++ second) := by
  cases format <;> simp [present, Transcript.append]

theorem checkScripts_eq (format : OutputFormat) (strict : Bool) (scripts : List ScriptFile) :
    let found := (ScriptFile.sources scripts).1.flatMap (·.parse.diagnostics strict)
    checkScripts format strict scripts = (present format found,
      match (ScriptFile.sources scripts).2 with
      | some failure => .error failure
      | none => .ok (errorCount found)) := by
  induction scripts with
  | nil => cases format <;> rfl
  | cons script rest ih =>
    rw [checkScripts, ScriptFile.sources]
    cases script.file.load script.path with
    | error failure => cases format <;> rfl
    | ok source =>
      simp only [ih, List.flatMap_cons, present_append, errorCount_append]
      cases (ScriptFile.sources rest).2 <;> rfl

/-- Every script can be read and none has an error. -/
theorem sources_pass (strict : Bool) (scripts : List ScriptFile) :
    ((ScriptFile.sources scripts).2 = none ∧
      errorCount ((ScriptFile.sources scripts).1.flatMap (·.parse.diagnostics strict)) = 0) ↔
    ∀ script ∈ scripts, ∃ source, script.file.load script.path = .ok source ∧
      source.parse.problems = [] ∧ (strict → source.parse.lexicalErrors = []) := by
  induction scripts with
  | nil => simp [ScriptFile.sources, errorCount]
  | cons script rest ih =>
    rw [List.forall_mem_cons, ← ih, ScriptFile.sources]
    cases script.file.load script.path with
    | error failure => simp
    | ok source =>
      simp only [List.flatMap_cons, errorCount_append, Nat.add_eq_zero_iff, errorCount_eq_zero]
      simp only [Except.ok.injEq, exists_eq_left']
      exact and_left_comm

/-- What is read for a path. -/
def visited (path : String) (target : Except SystemError Target) : List Source :=
  match ScriptFile.search path target with
  | .error _ => []
  | .ok scripts => (ScriptFile.sources scripts).1

/-- What is found wrong with it. -/
def found (path : String) (strict : Bool) (target : Except SystemError Target) :
    List Diagnostic :=
  (visited path target).flatMap (·.parse.diagnostics strict)

/-- How a check fails, if it does. -/
def checkFailure? (path : String) (strict : Bool) (target : Except SystemError Target) :
    Option Failure :=
  match ScriptFile.search path target with
  | .error failure => some (.search failure)
  | .ok [] => some (.noScripts path)
  | .ok scripts =>
    match (ScriptFile.sources scripts).2, errorCount (found path strict target) with
    | some failure, _ => some failure
    | none, 0 => none
    | none, errors => some (.errorsInFiles errors scripts.length)

section Check
variable (path : String) (strict : Bool) (target : Except SystemError Target)

/-- A check shows what was found and then fails or not, whatever the format. -/
theorem runCheck_shows (format : OutputFormat) :
    match checkFailure? path strict target with
    | some failure =>
      runCheck path format strict target =
        .failed (present format (found path strict target)) failure
    | none => ∃ summary,
      runCheck path format strict target =
        .success (present format (found path strict target)) summary := by
  have nothing : present format [] = {} := by cases format <;> rfl
  rw [runCheck, checkFailure?, found, visited]
  cases searched : ScriptFile.search path target with
  | error failure => exact congrArg (Outcome.failed · _) nothing.symm
  | ok scripts =>
    cases scripts with
    | nil => exact congrArg (Outcome.failed · _) nothing.symm
    | cons script rest =>
      simp only [checkScripts_eq]
      cases (ScriptFile.sources (script :: rest)).2 with
      | some failure => rfl
      | none =>
        generalize (ScriptFile.sources (script :: rest)).1.flatMap _ = diagnostics
        cases counted : errorCount diagnostics with
        | zero => exact ⟨_, rfl⟩
        | succ errors => rfl

variable {path strict target} in
theorem checkFailure?_eq_none : checkFailure? path strict target = none ↔
    ∃ scripts, ScriptFile.search path target = .ok scripts ∧ scripts ≠ [] ∧
      ∀ script ∈ scripts, ∃ source, script.file.load script.path = .ok source ∧
        source.parse.problems = [] ∧ (strict → source.parse.lexicalErrors = []) := by
  rw [checkFailure?, found, visited]
  cases searched : ScriptFile.search path target with
  | error failure => simp
  | ok scripts =>
    simp only [Except.ok.injEq, exists_eq_left', ← sources_pass]
    cases scripts with
    | nil => simp
    | cons script rest =>
      simp only [ne_eq, reduceCtorEq, not_false_eq_true, true_and]
      cases (ScriptFile.sources (script :: rest)).2 with
      | some failure => simp
      | none => 
        generalize errorCount _ = errors
        cases errors <;> simp

/-- All that a check shows but its summary. -/
theorem runCheck_outcome (format : OutputFormat) :
    let outcome := runCheck path format strict target
    let failure := checkFailure? path strict target
    outcome.exitCode = (if failure.isSome then 1 else 0) ∧
      outcome.stdout = (present format (found path strict target)).stdout ∧
      outcome.reports = (present format (found path strict target)).reports ++
        failure.toList.map Failure.message ∧
      outcome.causes = (failure.bind Failure.cause?).toList.map SystemError.message := by
  have shows := runCheck_shows path strict target format
  cases failed : checkFailure? path strict target with
  | some failure =>
    simp only [failed] at shows
    simp [shows, Outcome.failed]
  | none =>
    simp only [failed] at shows
    obtain ⟨summary, shows⟩ := shows
    simp [shows, Outcome.success]

theorem runCheck_exitCode (format : OutputFormat) :
    (runCheck path format strict target).exitCode = 0 ↔
      checkFailure? path strict target = none := by
  rw [(runCheck_outcome path strict target format).1]
  cases checkFailure? path strict target <;> simp

theorem found_strict :
    found path true target = (found path false target).map Diagnostic.hardened := by
  simp only [found, List.map_flatMap, Parsed.diagnostics_strict]

theorem runCheck_strict (format : OutputFormat)
    (passes : (runCheck path format true target).exitCode = 0) :
    (runCheck path format false target).exitCode = 0 := by
  rw [runCheck_exitCode, checkFailure?_eq_none] at passes ⊢
  obtain ⟨scripts, searched, some, all⟩ := passes
  refine ⟨scripts, searched, some, fun script member => ?_⟩
  obtain ⟨source, loads, clean, -⟩ := all script member
  exact ⟨source, loads, clean, fun strict => absurd strict Bool.false_ne_true⟩

end Check

section OneFile
variable (path : String) (strict : Bool) {file : File} (readable : file.refusal = none)
include readable

theorem visited_file :
    visited path (.ok (.file file)) = [{ id := path, bytes := file.content }] := by
  simp [visited, ScriptFile.search, ScriptFile.sources, File.load, readable]

theorem checkFailure?_file :
    let errors := errorCount (found path strict (.ok (.file file)))
    checkFailure? path strict (.ok (.file file)) =
      if errors = 0 then none else some (.errorsInFiles errors 1) := by
  simp only [checkFailure?, ScriptFile.search, ScriptFile.sources, File.load, readable]
  generalize errorCount _ = errors
  cases errors <;> rfl

theorem runParse_file :
    let errors := errorCount (found path strict (.ok (.file file)))
    let outcome := runParse path strict (.ok (.file file))
    (errors = 0 → outcome.exitCode = 0) ∧ (errors ≠ 0 → outcome.exitCode = 1 ∧
      outcome.reports.getLast? = some (Failure.errorsInFile errors path).message) := by
  have same : found path strict (.ok (.file file)) =
      Parsed.diagnostics (Source.parse { id := path, bytes := file.content }) strict := by
    rw [found, visited_file path readable, List.flatMap_singleton]
  simp only [same, runParse, Target.load, File.load, readable]
  constructor
  · intro clean
    rw [if_pos clean]
    rfl
  · intro errors
    rw [if_neg errors]
    exact ⟨rfl, List.getLast?_concat⟩

/-- A file is parsed and checked with the same result. -/
theorem runParse_runCheck (format : OutputFormat) :
    let parse := runParse path strict (.ok (.file file))
    let check := runCheck path format strict (.ok (.file file))
    let errors := errorCount (found path strict (.ok (.file file)))
    parse.exitCode = check.exitCode ∧ (errors = 0 → parse.exitCode = 0) ∧ (errors ≠ 0 →
      parse.reports.getLast? = some (Failure.errorsInFile errors path).message ∧
        check.reports.getLast? = some (Failure.errorsInFiles errors 1).message) := by
  intro parse check errors
  obtain ⟨exitCode, -, reports, -⟩ := runCheck_outcome path strict (.ok (.file file)) format
  obtain ⟨passes, fails⟩ := runParse_file path strict readable
  rw [checkFailure?_file path strict readable] at exitCode reports
  by_cases clean : errors = 0
  · rw [if_pos clean] at exitCode
    exact ⟨(passes clean).trans exitCode.symm, passes, fun wrong => absurd clean wrong⟩
  · rw [if_neg clean] at exitCode reports
    obtain ⟨failed, last⟩ := fails clean
    refine ⟨failed.trans exitCode.symm, passes, fun _ => ⟨last, ?_⟩⟩
    exact (congrArg List.getLast? reports).trans List.getLast?_concat

end OneFile

/-- What a check of any path in any tree comes to. It passes exactly if the search finds scripts,
every script can be read, and none has a problem or, in a strict check, a lexical error. Both
formats pass or fail alike, with the same failure: one shows a message for each finding, the other a
line of JSON that holds the same message, in the same order. A strict check finds the same as
another, but its lexical findings are errors. On a single file that can be read, printing its tree
passes or fails as the check does, for as many errors. -/
theorem check_consistent (tree : FileTree) (path : String) (strict : Bool) :
    let target := tree.follow path
    let check (format : OutputFormat) (strict : Bool) :=
      (Command.check path format strict).run target
    let found (strict : Bool) := (visited path target).flatMap fun source =>
      source.parse.problems.map (Diagnostic.ofProblem source) ++
        source.parse.lexicalErrors.map (Diagnostic.ofLexicalError source strict)
    (∀ format, (check format strict).exitCode = 0 ↔
      ∃ scripts, ScriptFile.search path target = .ok scripts ∧ scripts ≠ [] ∧
        ∀ script ∈ scripts, ∃ source, script.file.load script.path = .ok source ∧
          source.parse.problems = [] ∧ (strict → source.parse.lexicalErrors = [])) ∧
      (∃ failure : Option Failure,
        (∀ format, (check format strict).exitCode = (if failure.isSome then 1 else 0) ∧
          (check format strict).causes =
            (failure.bind Failure.cause?).toList.map SystemError.message) ∧
        (check .text strict).reports =
          (found strict).map Diagnostic.message ++ failure.toList.map Failure.message ∧
        (check .json strict).reports = failure.toList.map Failure.message) ∧
      (check .text strict).stdout = "" ∧
      (∃ lines : List String, (check .json strict).stdout = String.join (lines.map (· ++ "\n")) ∧
        (∀ line ∈ lines, '\n' ∉ line.toList) ∧
        lines.map JsonObject.read = (found strict).map (some ·.members)) ∧
      found true = (found false).map Diagnostic.hardened ∧
      (∀ format, (check format true).exitCode = 0 → (check format false).exitCode = 0) ∧
      ∀ file, target = .ok (.file file) → file.refusal = none →
        let parse := (Command.parse path strict).run target
        let errors := errorCount (found strict)
        ∀ format, parse.exitCode = (check format strict).exitCode ∧
          (errors = 0 → parse.exitCode = 0) ∧
          (errors ≠ 0 →
            parse.reports.getLast? = some (Failure.errorsInFile errors path).message ∧
            (check format strict).reports.getLast? =
              some (Failure.errorsInFiles errors 1).message) := by
  intro target check found
  have outcome (format : OutputFormat) := runCheck_outcome path strict target format
  refine ⟨fun format => ?_, ⟨checkFailure? path strict target, fun format => ?_, ?_, ?_⟩,
    ?_, ?_, ?_, ?_, ?_⟩
  · exact (runCheck_exitCode path strict target format).trans checkFailure?_eq_none
  · exact ⟨(outcome format).1, (outcome format).2.2.2⟩
  · exact (outcome .text).2.2.1
  · exact (outcome .json).2.2.1
  · exact (outcome .text).2.1
  · refine ⟨(found strict).map Diagnostic.jsonLine, ?_, ?_, ?_⟩
    · rw [List.map_map]
      exact (outcome .json).2.1
    · simp [Diagnostic.jsonLine_oneLine]
    · simp [Diagnostic.read_jsonLine]
  · exact found_strict path target
  · exact fun format => runCheck_strict path target format
  · intro file leads readable parse errors format
    have same := runParse_runCheck path strict readable format
    rw [← leads] at same
    exact same

/-- One script with a missing name and a character that begins no token. -/
def oneScript : FileTree where
  root := .mk none
    [.mk (Text.Utf8.encode "a.wren") (.file { content := Text.Utf8.encode "var = $" })]
  working := []

theorem oneScript_follow :
    oneScript.follow "a.wren" = .ok (.file { content := Text.Utf8.encode "var = $" }) := by
  let name := Text.Utf8.encode "a.wren"
  have path : Path.ofBytes name = ⟨false, [name]⟩ := by decide +kernel
  have held : oneScript.root.get? [name] =
      some (.file { content := Text.Utf8.encode "var = $" }) := rfl
  have plain : name ≠ FileName.here ∧ name ≠ FileName.parent ∧
      ¬ FileName.maxLength < name.length := by
    decide +kernel
  have place : oneScript.locate ⟨false, [name]⟩ = .ok [name] := by
    change oneScript.root.locate FileTree.maxLinks [] [name] = _
    rw [Directory.locate, if_neg plain.1, if_neg plain.2.1, if_neg plain.2.2, List.nil_append, held]
    rfl
  change oneScript.target (Path.ofBytes name) = _
  rw [path, FileTree.target, place]
  rfl

theorem oneScript_consistent :
    oneScript.follow "a.wren" = .ok (.file { content := Text.Utf8.encode "var = $" }) ∧
      ((Command.parse "a.wren" true).run (oneScript.follow "a.wren")).exitCode =
        ((Command.check "a.wren" .json true).run (oneScript.follow "a.wren")).exitCode ∧
      ((Command.parse "a.wren" true).run (oneScript.follow "a.wren")).reports.getLast? =
        some (Failure.errorsInFile 3 "a.wren").message ∧
      ((Command.check "a.wren" .json true).run (oneScript.follow "a.wren")).reports.getLast? =
        some (Failure.errorsInFiles 3 1).message := by
  obtain ⟨-, -, -, -, -, -, single⟩ := check_consistent oneScript "a.wren" true
  obtain ⟨exitCode, -, reports⟩ := single _ oneScript_follow rfl .json
  have errors : errorCount (found "a.wren" true (oneScript.follow "a.wren")) = 3 := by
    rw [oneScript_follow]
    decide +kernel
  change errorCount (found "a.wren" true (oneScript.follow "a.wren")) ≠ 0 →
    _ = some (Failure.errorsInFile (errorCount (found _ _ _)) _).message ∧
      _ = some (Failure.errorsInFiles (errorCount (found _ _ _)) 1).message at reports
  rw [errors] at reports
  exact ⟨oneScript_follow, exitCode, reports (by decide)⟩

end Command
end WrenFront
