import RouteMigration.Migration.Run

set_option autoImplicit false

namespace RouteMigration

def Config.entryFor (config : Config) (path : Path) (outcome : Outcome) : Entry where
  path := path
  displayPath := Path.displayFrom config.root path
  outcome := outcome

namespace Disk

def processAll (config : Config) : Disk → List Path → Disk × List Entry
  | disk, [] => (disk, [])
  | disk, path :: later =>
    let turn := disk.processFile config path
    let rest := processAll config turn.1 later
    (rest.1, config.entryFor path turn.2 :: rest.2)

end Disk

def Config.emptyReport (config : Config) (discovered : Nat) : Report where
  root := config.root
  dryRun := config.dryRun
  discovered := discovered

theorem Report.entries_foldl_record (report : Report) (entries : List Entry) :
    (entries.foldl record report).entries = report.entries ++ entries := by
  induction entries generalizing report with
  | nil => simp
  | cons entry later ih => simp [ih, record_entries]

theorem Report.discovered_foldl_record (report : Report) (entries : List Entry) :
    (entries.foldl record report).discovered = report.discovered := by
  have step (report : Report) (entry : Entry) :
      (report.record entry).discovered = report.discovered := by
    unfold record
    cases entry.outcome <;> rfl
  induction entries generalizing report with
  | nil => rfl
  | cons entry later ih => rw [List.foldl_cons, ih, step]

theorem Report.foldl_record_dryRun (report : Report) (dryRun : Bool) (entries : List Entry) :
    entries.foldl record { report with dryRun } =
      { entries.foldl record report with dryRun } := by
  have step (report : Report) (entry : Entry) :
      record { report with dryRun } entry = { report.record entry with dryRun } := by
    unfold record
    cases entry.outcome <;> rfl
  induction entries generalizing report with
  | nil => rfl
  | cons entry later ih => rw [List.foldl_cons, step, ih, List.foldl_cons]

namespace Progress

theorem foldl_handle (config : Config) (progress : Progress) (files : List Path) :
    files.foldl (handle config) progress =
      { disk := (progress.disk.processAll config files).1
        report := (progress.disk.processAll config files).2.foldl Report.record
          progress.report } := by
  induction files generalizing progress with
  | nil => rfl
  | cons path later ih =>
    rw [List.foldl_cons, ih (progress.handle config path)]
    rfl

theorem foldl_recordError (config : Config) (progress : Progress) (errors : List FileError) :
    errors.foldl (recordError config) progress =
      { progress with
        report := (errors.map fun error => config.entryFor error.file (.errored error)).foldl
          Report.record progress.report } := by
  induction errors generalizing progress with
  | nil => rfl
  | cons error later ih =>
    rw [List.foldl_cons, ih (progress.recordError config error)]
    rfl

end Progress

namespace Disk

def discoveryEntries (disk : Disk) (config : Config) (patterns : List Glob.Pattern) : List Entry :=
  (disk.discover config patterns).errors.map fun error =>
    config.entryFor error.file (.errored error)

def completed (disk : Disk) (config : Config) (patterns : List Glob.Pattern) : Progress :=
  let files := (disk.discover config patterns).files
  let processed := disk.processAll config files
  { disk := processed.1
    report := (disk.discoveryEntries config patterns ++ processed.2).foldl Report.record
      (config.emptyReport files.length) }

theorem migrate_eq_completed (disk : Disk) (config : Config) (patterns : List Glob.Pattern)
    (valid : config.validate disk = .ok patterns) :
    disk.migrate config = .ok (disk.completed config patterns) := by
  simp only [migrate, valid, Progress.foldl_recordError, Progress.foldl_handle, completed,
    List.foldl_append]
  rfl

theorem entries_completed (disk : Disk) (config : Config) (patterns : List Glob.Pattern) :
    (disk.completed config patterns).report.entries = disk.discoveryEntries config patterns ++
      (disk.processAll config (disk.discover config patterns).files).2 := by
  rw [completed, Report.entries_foldl_record]
  rfl

theorem paths_processAll (config : Config) (disk : Disk) (files : List Path) :
    (disk.processAll config files).2.map (fun entry => entry.path) = files := by
  induction files generalizing disk with
  | nil => rfl
  | cons path later ih => simp [processAll, ih, Config.entryFor]

theorem length_processAll (config : Config) (disk : Disk) (files : List Path) :
    (disk.processAll config files).2.length = files.length := by
  rw [← List.length_map (fun entry => entry.path), paths_processAll]

theorem length_completed (config : Config) (disk : Disk) (patterns : List Glob.Pattern) :
    (disk.completed config patterns).report.entries.length =
      (disk.discover config patterns).errors.length +
        (disk.discover config patterns).files.length := by
  rw [entries_completed, List.length_append, length_processAll, discoveryEntries, List.length_map]

theorem migrate_eq_ok (disk : Disk) (config : Config) (progress : Progress)
    (ran : disk.migrate config = .ok progress) :
    ∃ patterns, config.validate disk = .ok patterns ∧
      progress.disk = (disk.processAll config (disk.discover config patterns).files).1 ∧
      progress.report.entries =
        ((disk.discover config patterns).errors.map fun error =>
          config.entryFor error.file (.errored error)) ++
        (disk.processAll config (disk.discover config patterns).files).2 := by
  cases valid : config.validate disk with
  | error cause => simp [migrate, valid] at ran
  | ok patterns =>
    rw [disk.migrate_eq_completed config patterns valid] at ran
    cases ran
    exact ⟨patterns, rfl, rfl, disk.entries_completed config patterns⟩

theorem migrate_of_valid (config : Config) (disk : Disk) (patterns : List Glob.Pattern)
    (valid : config.validate disk = .ok patterns) :
    ∃ progress, disk.migrate config = .ok progress :=
  ⟨_, disk.migrate_eq_completed config patterns valid⟩

end Disk

end RouteMigration
