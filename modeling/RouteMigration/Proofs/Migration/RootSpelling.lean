import RouteMigration.Proofs.Migration.RespelledWalk

set_option autoImplicit false

namespace RouteMigration

def Outcome.respelled (file : Path) : Outcome → Outcome
  | .errored error => .errored { error with file }
  | outcome => outcome

def Entry.spelledOut (workingDirectory : Location) (entry : Entry) : Path × Outcome :=
  (entry.path.absolute workingDirectory,
    entry.outcome.respelled (entry.path.absolute workingDirectory))

theorem Outcome.respelled_respelled (file other : Path) (outcome : Outcome) :
    (outcome.respelled other).respelled file = outcome.respelled file := by
  cases outcome <;> rfl

def FileError.respelled (file : Path) (error : FileError) : FileError :=
  { error with file }

def Plan.respelled (file : Path) : Plan → Plan
  | .leave outcome => .leave (outcome.respelled file)
  | .write content => .write content

theorem boundedText_respelled (first second : Path) (limit : UInt64) (data : ByteArray) :
    boundedText second limit data =
      (boundedText first limit data).mapError (FileError.respelled second) := by
  simp only [boundedText]
  split
  next => rfl
  next => cases Utf8.decode? _ <;> rfl

namespace Disk

theorem workingDirectory_processFile (disk : Disk) (config : Config) (path : Path) :
    (disk.processFile config path).1.workingDirectory = disk.workingDirectory := by
  have alike : (disk.processFile config path).1.Alike disk :=
    alike_of_outline (disk.outline_processFile config path)
  rw [← workingDirectory_skeleton, alike, workingDirectory_skeleton]

namespace Twins

variable {disk : Disk} {first second : Path} (twins : disk.Twins first second)

include twins

theorem readBounded (limit : UInt64) : disk.readBounded second limit =
    (disk.readBounded first limit).mapError (FileError.respelled second) := by
  have opened : disk.openForReading second = disk.openForReading first := by
    simp only [openForReading, twins.status]
  simp only [Disk.readBounded, opened]
  cases disk.openForReading first with
  | error cause => rfl
  | ok found =>
    cases found with
    | directory => rfl
    | file data => exact boundedText_respelled first second limit data

theorem plan (config : Config) :
    disk.plan config second = (disk.plan config first).respelled second := by
  simp only [Disk.plan, twins.readBounded, ← twins.rulePath]
  cases disk.readBounded first config.maxFileSize with
  | error error => rfl
  | ok content =>
    simp only [Except.mapError]
    cases Route.exclusion? (disk.rulePath first) content with
    | some reason => rfl
    | none =>
      simp only
      cases Route.rewrite? content <;> rfl

theorem carryOut (config : Config) (plan : Plan) :
    disk.carryOut config second (plan.respelled second) =
      ((disk.carryOut config first plan).1, (disk.carryOut config first plan).2.respelled second) := by
  cases plan with
  | leave outcome => rfl
  | write content =>
    have overwritten : disk.overwrite second (Utf8.encode content) =
        disk.overwrite first (Utf8.encode content) := by
      simp only [overwrite, twins.status]
    simp only [Disk.carryOut, Plan.respelled, writeRewritten, overwritten]
    cases config.dryRun with
    | true => rfl
    | false => cases disk.overwrite first (Utf8.encode content) <;> rfl

theorem processFile (config : Config) : disk.processFile config second =
    ((disk.processFile config first).1, (disk.processFile config first).2.respelled second) := by
  rw [processFile_eq_carryOut, processFile_eq_carryOut, twins.plan, twins.carryOut]

theorem after_turn (config : Config) (path : Path) :
    (disk.processFile config path).1.Twins first second := by
  have alike := alike_of_outline (disk.outline_processFile config path)
  refine ⟨?_, ?_, ?_⟩
  · rw [alike.locate, alike.locate, twins.located]
  · rw [workingDirectory_processFile, twins.absolute]
  · rw [alike.rulePath, alike.rulePath, twins.rulePath]

end Twins

theorem processAll_twins (config : Config) (root : Path) (respell : Path → Path)
    (workingDirectory : Location) (disk : Disk)
    (started : disk.workingDirectory = workingDirectory) (files : List Path)
    (twins : ∀ path ∈ files, disk.Twins path (respell path)) :
    (disk.processAll { config with root } (files.map respell)).1 =
        (disk.processAll config files).1 ∧
      (disk.processAll { config with root } (files.map respell)).2.map
          (Entry.spelledOut workingDirectory) =
        (disk.processAll config files).2.map (Entry.spelledOut workingDirectory) := by
  induction files generalizing disk with
  | nil => exact ⟨rfl, rfl⟩
  | cons path later ih =>
    have first := twins path (by simp)
    have turn : disk.processFile { config with root } (respell path) =
        ((disk.processFile config path).1,
          (disk.processFile config path).2.respelled (respell path)) := first.processFile config
    obtain ⟨sameDisk, sameEntries⟩ := ih (disk.processFile config path).1
      ((disk.workingDirectory_processFile config path).trans started)
      fun other member => (twins other (List.mem_cons_of_mem _ member)).after_turn config path
    have absolute : (respell path).absolute workingDirectory = path.absolute workingDirectory := by
      rw [← started]
      exact first.absolute.symm
    simp only [List.map_cons, processAll, turn]
    refine ⟨sameDisk, ?_⟩
    rw [sameEntries]
    simp only [Entry.spelledOut, Config.entryFor, absolute, Outcome.respelled_respelled]

theorem validate_respelled (config : Config) (disk : Disk) (patterns : List Glob.Pattern)
    (valid : config.validate disk = .ok patterns) (root : Path) (base : Location) (mode : Mode)
    (standing : disk.status root = .ok (base, .directory mode)) :
    Config.validate { config with root } disk = .ok patterns := by
  obtain ⟨_, _, own⟩ := root_of_valid config disk patterns valid
  simpa [Config.validate, pathExists, isDirectory, standing, own] using valid

theorem root_spelling (disk : Disk) (tree : disk.Tree) (config : Config)
    (patterns : List Glob.Pattern) (valid : config.validate disk = .ok patterns) (root : Path)
    (directory : disk.isDirectory root = true)
    (same : root.absolute disk.workingDirectory = config.root.absolute disk.workingDirectory)
    (fits : disk.FitsBelow config config.root root)
    (otherFits : disk.FitsBelow config root config.root)
    (alike : disk.ExcludesAlike config patterns config.root root) :
    ∃ first second firstEntries secondEntries,
      disk.migrate config = .ok first ∧ disk.migrate { config with root } = .ok second ∧
      first.report.entries = disk.discoveryEntries config patterns ++ firstEntries ∧
      second.report.entries =
        disk.discoveryEntries { config with root } patterns ++ secondEntries ∧
      firstEntries.map (fun entry => entry.path) = (disk.discover config patterns).files ∧
      secondEntries.map (fun entry => entry.path) =
        (disk.discover { config with root } patterns).files ∧
      secondEntries.map (Entry.spelledOut disk.workingDirectory) =
        firstEntries.map (Entry.spelledOut disk.workingDirectory) ∧
      second.report.discovered = first.report.discovered ∧ second.disk = first.disk := by
  obtain ⟨base, mode, standing⟩ := disk.exists_standing root directory
  have respelled : disk.Respelled config.root root :=
    ⟨tree, root_of_valid config disk patterns valid, ⟨base, mode, standing⟩, same.symm⟩
  have validToo := validate_respelled config disk patterns valid root base mode standing
  have files := respelled.files_respelled config patterns fits otherFits alike
  have twins := respelled.twins_respelled config patterns fits alike
  obtain ⟨sameDisk, sameEntries⟩ := processAll_twins config root (Path.respelled config.root root)
    disk.workingDirectory disk rfl (disk.discover config patterns).files twins
  rw [← files] at sameDisk sameEntries
  refine ⟨_, _, _, _, disk.migrate_eq_completed config patterns valid,
    disk.migrate_eq_completed { config with root } patterns validToo,
    disk.entries_completed config patterns, disk.entries_completed { config with root } patterns,
    paths_processAll config disk _, paths_processAll _ disk _, sameEntries, ?_, sameDisk⟩
  simp only [completed, Report.discovered_foldl_record, Config.emptyReport, files, List.length_map]

def shelved : Disk where
  items :=
    [([], .directory {}), (placeOf ["w"], .directory {}),
      (placeOf ["w", "legacy"], .directory {}),
      (placeOf ["w", "legacy", "route.ts"], .file {} (Utf8.encode "import x\nfetch(u)".toList)),
      (placeOf ["w", "legacy", "old"], .directory {}),
      (placeOf ["w", "legacy", "old", "route.ts"],
        .file {} (Utf8.encode "import x\nfetch(u)".toList))]
  workingDirectory := placeOf ["w"]

def shelvedConfig : Config :=
  { root := Path.ofText "./legacy//".toList, exclude := ["**/old/*".toList] }

def shelvedPatterns : List Glob.Pattern :=
  [[.anyComponents, .character 'o', .character 'l', .character 'd', .character '/', .anySequence]]

theorem root_spelling_shelved :
    shelved.Tree ∧ shelvedConfig.validate shelved = .ok shelvedPatterns ∧
    shelved.isDirectory (Path.ofText "/w/legacy".toList) = true ∧
    (Path.ofText "/w/legacy".toList).absolute shelved.workingDirectory =
      shelvedConfig.root.absolute shelved.workingDirectory ∧
    shelved.FitsBelow shelvedConfig shelvedConfig.root (Path.ofText "/w/legacy".toList) ∧
    shelved.FitsBelow shelvedConfig (Path.ofText "/w/legacy".toList) shelvedConfig.root ∧
    shelved.ExcludesAlike shelvedConfig shelvedPatterns shelvedConfig.root
      (Path.ofText "/w/legacy".toList) ∧
    ∃ first second, shelved.migrate shelvedConfig = .ok first ∧
      shelved.migrate { shelvedConfig with root := Path.ofText "/w/legacy".toList } = .ok second ∧
      first.report.updated = 1 ∧ second.report.discovered = 1 ∧ second.disk = first.disk := by
  have tree : shelved.Tree := ⟨by decide +kernel, by decide +kernel, by decide +kernel⟩
  have valid : shelvedConfig.validate shelved = .ok shelvedPatterns := by rfl
  have directory : shelved.isDirectory (Path.ofText "/w/legacy".toList) = true := by decide +kernel
  have same : (Path.ofText "/w/legacy".toList).absolute shelved.workingDirectory =
      shelvedConfig.root.absolute shelved.workingDirectory := by decide +kernel
  have fits : shelved.FitsBelow shelvedConfig shelvedConfig.root
      (Path.ofText "/w/legacy".toList) := by decide +kernel
  have otherFits : shelved.FitsBelow shelvedConfig (Path.ofText "/w/legacy".toList)
      shelvedConfig.root := by decide +kernel
  have alike : shelved.ExcludesAlike shelvedConfig shelvedPatterns shelvedConfig.root
      (Path.ofText "/w/legacy".toList) := by decide +kernel
  obtain ⟨first, second, _, _, ran, ranToo, -, -, -, -, -, discovered, sameDisk⟩ :=
    root_spelling shelved tree shelvedConfig shelvedPatterns valid _ directory same fits otherFits
      alike
  obtain rfl : first = shelved.completed shelvedConfig shelvedPatterns :=
    Except.ok.inj (ran.symm.trans (shelved.migrate_eq_completed _ _ valid))
  refine ⟨tree, valid, directory, same, fits, otherFits, alike, _, second, ran, ranToo,
    by decide +kernel, ?_, sameDisk⟩
  rw [discovered]
  decide +kernel

def hiddenPatterns : List Glob.Pattern :=
  [[.anySequence, .character '/', .character 'l', .character 'e', .character 'g', .character 'a',
    .character 'c', .character 'y', .character '/', .anySequence]]

-- The pattern asks for a slash in front of the root's own name, which a relative root has not got.
theorem rewritten_by_spelling : ∃ config root first second,
    config.root.isAbsolute = false ∧ shelved.isDirectory config.root = true ∧
    root = config.root.absolute shelved.workingDirectory ∧
    shelved.migrate config = .ok first ∧ shelved.migrate { config with root } = .ok second ∧
    first.report.discovered = 2 ∧ second.report.discovered = 0 ∧
    first.disk.item? (placeOf ["w", "legacy", "route.ts"]) ≠
      second.disk.item? (placeOf ["w", "legacy", "route.ts"]) := by
  refine ⟨{ root := Path.ofText "legacy".toList, exclude := ["*/legacy/*".toList] },
    Path.ofText "/w/legacy".toList, _, _, by rfl, by decide +kernel, by decide +kernel,
    shelved.migrate_eq_completed _ hiddenPatterns (by rfl),
    shelved.migrate_eq_completed _ hiddenPatterns (by rfl), ?_⟩
  decide +kernel

end Disk

end RouteMigration
