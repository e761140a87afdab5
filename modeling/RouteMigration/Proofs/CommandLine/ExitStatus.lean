import RouteMigration.CommandLine.Answer
import RouteMigration.Proofs.Migration.Effect
import RouteMigration.Proofs.Migration.Reporting

set_option autoImplicit false

namespace RouteMigration

def Outcome.paths : Outcome → List Path
  | .errored error => [error.file]
  | _ => []

def Entry.paths (entry : Entry) : List Path :=
  entry.path :: entry.displayPath :: entry.outcome.paths

def Report.paths (report : Report) : List Path :=
  report.root :: report.entries.flatMap Entry.paths

def Path.Textless (path : Path) : Prop :=
  path.text? = none

instance (path : Path) : Decidable path.Textless :=
  inferInstanceAs (Decidable (path.text? = none))

theorem Path.toJson?_eq_none_iff (path : Path) : path.toJson? = none ↔ path.Textless := by
  simp [Path.toJson?, Path.Textless]

theorem Outcome.members?_eq_none_iff (outcome : Outcome) :
    outcome.members? = none ↔ ∃ path ∈ outcome.paths, path.Textless := by
  cases outcome with
  | updated missingImport => simp [Outcome.members?, Outcome.paths]
  | skipped reason => simp [Outcome.members?, Outcome.paths]
  | errored error =>
    simp [Outcome.members?, Outcome.paths, FileError.toJson?, Path.toJson?_eq_none_iff]

theorem Entry.toJson?_eq_none_iff (entry : Entry) :
    entry.toJson? = none ↔ ∃ path ∈ entry.paths, path.Textless := by
  have named : (∃ path ∈ entry.paths, path.Textless) ↔
      entry.path.toJson? = none ∨ entry.displayPath.toJson? = none ∨
        entry.outcome.members? = none := by
    simp [Entry.paths, Path.toJson?_eq_none_iff, Outcome.members?_eq_none_iff]
  rw [named, Entry.toJson?]
  cases entry.path.toJson? <;> cases entry.displayPath.toJson? <;>
    cases entry.outcome.members? <;> simp

theorem Entry.listToJson?_eq_none_iff (entries : List Entry) :
    Entry.listToJson? entries = none ↔ ∃ path ∈ entries.flatMap Entry.paths, path.Textless := by
  induction entries with
  | nil => simp [Entry.listToJson?]
  | cons entry later ih =>
    have named : (∃ path ∈ (entry :: later).flatMap Entry.paths, path.Textless) ↔
        entry.toJson? = none ∨ Entry.listToJson? later = none := by
      rw [Entry.toJson?_eq_none_iff, ih, List.flatMap_cons]
      simp only [List.mem_append, or_and_right, exists_or]
    rw [named, Entry.listToJson?]
    cases entry.toJson? <;> cases Entry.listToJson? later <;> simp

theorem Report.jsonText?_eq_none_iff (report : Report) :
    report.jsonText? = none ↔ ∃ path ∈ report.paths, path.Textless := by
  have named : (∃ path ∈ report.paths, path.Textless) ↔
      report.root.toJson? = none ∨ Entry.listToJson? report.entries = none := by
    rw [Path.toJson?_eq_none_iff, Entry.listToJson?_eq_none_iff]
    simp [Report.paths]
  rw [named, Report.jsonText?, Option.map_eq_none_iff, Report.toJson?]
  cases report.root.toJson? <;> cases Entry.listToJson? report.entries <;> simp

namespace CommandLine

theorem Options.answer_of_invalid (options : Options) (disk : Disk) (error : ConfigError)
    (invalid : options.toConfig.validate disk = .error error) :
    options.answer disk = { disk, exitCode := 1, diagnostics := errorLine error.describe } := by
  simp [answer, Disk.migrate, invalid]

theorem Options.reportText?_eq_none_iff (options : Options) (report : Report) :
    options.reportText? report = none ↔
      options.format.getD .human = .json ∧ ∃ path ∈ report.paths, path.Textless := by
  cases format : options.format.getD .human with
  | human => simp [reportText?, format]
  | json => simp [reportText?, format, Report.jsonText?_eq_none_iff]

theorem exit_status (disk : Disk) (arguments : List Argument) (options : Options)
    (accepted : Request.ofArguments arguments = .run options) :
    (∀ error, options.toConfig.validate disk = .error error →
      answer disk arguments =
        { disk, exitCode := 1, output := [], diagnostics := errorLine error.describe }) ∧
    (∀ patterns, options.toConfig.validate disk = .ok patterns →
      ∃ progress, disk.migrate options.toConfig = .ok progress ∧
        (answer disk arguments).disk = progress.disk ∧
        ((options.format.getD .human = .json ∧ ∃ path ∈ progress.report.paths, path.Textless) →
          (answer disk arguments).exitCode = 1 ∧ (answer disk arguments).output = [] ∧
          (answer disk arguments).diagnostics = errorLine unwritablePathMessage) ∧
        (¬ (options.format.getD .human = .json ∧ ∃ path ∈ progress.report.paths, path.Textless) →
          (answer disk arguments).exitCode = 0 ∧
          options.reportText? progress.report = some (answer disk arguments).output ∧
          (answer disk arguments).diagnostics = [])) := by
  have same : answer disk arguments = options.answer disk := by
    rw [answer, accepted]
    rfl
  rw [same]
  refine ⟨fun error invalid => options.answer_of_invalid disk error invalid, ?_⟩
  intro patterns valid
  obtain ⟨progress, ran⟩ := Disk.migrate_of_valid options.toConfig disk patterns valid
  refine ⟨progress, ran, ?_⟩
  rw [← options.reportText?_eq_none_iff]
  cases text : options.reportText? progress.report with
  | none => simp [Options.answer, ran, text]
  | some rendered => simp [Options.answer, ran, text]

def argumentsOf (words : List String) : List Argument :=
  words.map fun word => Utf8.encodeOctets word.toList

theorem exit_status_importing : ∃ options progress,
    Request.ofArguments (argumentsOf ["--root", "api"]) = .run options ∧
      Disk.importing.migrate options.toConfig = .ok progress ∧ progress.report.updated = 1 ∧
      (answer Disk.importing (argumentsOf ["--root", "api"])).disk = progress.disk ∧
      (answer Disk.importing (argumentsOf ["--root", "api"])).exitCode = 0 ∧
      (answer Disk.importing (argumentsOf ["--root", "api"])).output =
        progress.report.operatorText := by
  have accepted : Request.ofArguments (argumentsOf ["--root", "api"]) =
      .run { root := some (Path.ofText "api".toList) } := by rfl
  obtain ⟨-, completes⟩ := exit_status Disk.importing _ _ accepted
  obtain ⟨progress, ran, disk, -, reported⟩ := completes [] (by rfl)
  obtain ⟨exitCode, output, -⟩ := reported (fun textless => by cases textless.1)
  refine ⟨_, progress, accepted, ran, ?_, disk, exitCode, (Option.some.inj output).symm⟩
  cases ran
  decide +kernel

-- A single octet FF is a name, but no text.
def textlesslyNamed : Disk where
  items :=
    [([], .directory {}), (Disk.placeOf ["api"], .directory {}),
      (Disk.placeOf ["api"] ++ [[0xFF]], .directory {}),
      (Disk.placeOf ["api"] ++ [[0xFF], nameOf "route.ts"],
        .file {} (Utf8.encode "import x\nfetch(u)".toList))]
  workingDirectory := []

theorem unreported_run : ∃ options place,
    Request.ofArguments (argumentsOf ["--root", "api", "--format", "json"]) = .run options ∧
      options.toConfig.validate textlesslyNamed = .ok [] ∧
      (answer textlesslyNamed (argumentsOf ["--root", "api", "--format", "json"])).exitCode = 1 ∧
      (answer textlesslyNamed (argumentsOf ["--root", "api", "--format", "json"])).output = [] ∧
      (answer textlesslyNamed (argumentsOf ["--root", "api", "--format", "json"])).disk.item?
        place ≠ textlesslyNamed.item? place := by
  refine ⟨{ root := some (Path.ofText "api".toList), format := some .json },
    Disk.placeOf ["api"] ++ [[0xFF], nameOf "route.ts"], by rfl, by rfl, ?_⟩
  decide +kernel

end CommandLine

end RouteMigration
