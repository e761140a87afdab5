import RouteMigration.Proofs.Migration.Effect

set_option autoImplicit false

namespace RouteMigration

def Outcome.isWriteFailure : Outcome → Bool
  | .errored error => error.kind = .writeError
  | _ => false

namespace Disk

/-- A path that leads to a file which one of the earlier entries reports as updated. -/
def Retaken (disk : Disk) (earlier : List Entry) (path : Path) : Prop :=
  ∃ place, disk.locate true path = .ok place ∧ disk.Updates earlier place

theorem updates_append (disk : Disk) (earlier later : List Entry) (place : Location) :
    disk.Updates (earlier ++ later) place ↔
      disk.Updates earlier place ∨ disk.Updates later place := by
  simp only [Updates, List.mem_append, or_and_right, exists_or]

variable (config : Config)

theorem processFile_foretold (disk : Disk) (path : Path) :
    (disk.processFile { config with dryRun := true } path).2 =
      (disk.processFile { config with dryRun := false } path).2 ∨
    (disk.processFile { config with dryRun := false } path).2.isWriteFailure = true := by
  have planned : disk.plan { config with dryRun := true } path =
      disk.plan { config with dryRun := false } path := rfl
  rw [processFile_eq_carryOut, processFile_eq_carryOut, planned]
  cases disk.plan { config with dryRun := false } path with
  | leave outcome => exact .inl rfl
  | write content =>
    simp only [carryOut, writeRewritten, if_true, Bool.false_eq_true, if_false]
    cases disk.overwrite path (Utf8.encode content) with
    | error cause => exact .inr rfl
    | ok written => exact .inl rfl

theorem entries_dry (dry : config.dryRun = true) (disk : Disk) (files : List Path) :
    (disk.processAll config files).2 =
      files.map fun path => config.entryFor path (disk.processFile config path).2 := by
  induction files with
  | nil => rfl
  | cons path later ih =>
    simp only [processAll, disk.processFile_dry config dry path, ih, List.map_cons]

theorem turn_between (disk between : Disk) (earlier : List Entry)
    (same : between.outline = disk.outline)
    (held : ∀ place, ¬ disk.Updates earlier place → between.item? place = disk.item? place)
    (files : List Path) (index : Nat) (entry : Entry)
    (found : (between.processAll config files).2[index]? = some entry) :
    ∃ path outcome, files[index]? = some path ∧ entry = config.entryFor path outcome ∧
      (outcome = (disk.processFile config path).2 ∨
        disk.Retaken (earlier ++ (between.processAll config files).2.take index) path) := by
  induction files generalizing between earlier index with
  | nil => simp [processAll] at found
  | cons path later ih =>
    cases index with
    | zero =>
      simp only [processAll, List.getElem?_cons_zero, Option.some.injEq] at found
      refine ⟨path, _, rfl, found.symm, ?_⟩
      by_cases retaken : disk.Retaken earlier path
      · exact .inr (by simpa using retaken)
      · refine .inl (processFile_congr same config path ?_)
        intro place located
        rw [locate_congr same] at located
        exact held place fun updates => retaken ⟨place, located, updates⟩
    | succ index =>
      simp only [processAll, List.getElem?_cons_succ] at found ⊢
      have outline := (between.outline_processFile config path).trans same
      have heldAfter : ∀ place,
          ¬ disk.Updates (earlier ++ [config.entryFor path (between.processFile config path).2])
            place →
          (between.processFile config path).1.item? place = disk.item? place := by
        intro place never
        rw [updates_append, not_or, updates_cons, not_or] at never
        rw [between.item?_processFile config path place ?_, held place never.1]
        intro updated located
        rw [locate_congr same] at located
        exact never.2.1 ⟨updated, located⟩
      obtain ⟨other, outcome, listed, turn, foretold⟩ :=
        ih _ (earlier ++ [_]) outline heldAfter index found
      refine ⟨other, outcome, listed, turn, ?_⟩
      simpa using foretold

structure Foretells (disk : Disk) (earlier : List Entry) (predicted actual : Entry) : Prop where
  path : predicted.path = actual.path
  displayPath : predicted.displayPath = actual.displayPath
  outcome : predicted.outcome = actual.outcome ∨ actual.outcome.isWriteFailure = true ∨
    disk.Retaken earlier actual.path

theorem foretells_processAll (disk : Disk) (earlier : List Entry) (files : List Path) (index : Nat)
    (actual : Entry)
    (found : (disk.processAll { config with dryRun := false } files).2[index]? = some actual) :
    ∃ predicted,
      (disk.processAll { config with dryRun := true } files).2[index]? = some predicted ∧
      disk.Foretells
        (earlier ++ (disk.processAll { config with dryRun := false } files).2.take index)
        predicted actual := by
  obtain ⟨path, outcome, listed, rfl, turn⟩ :=
    turn_between { config with dryRun := false } disk disk earlier rfl (fun _ _ => rfl) files index
      actual found
  rw [entries_dry { config with dryRun := true } rfl, List.getElem?_map, listed]
  refine ⟨_, rfl, rfl, rfl, ?_⟩
  rcases turn with rfl | retaken
  · exact (disk.processFile_foretold config path).imp_right .inl
  · exact .inr (.inr retaken)

theorem foretells_completed (disk : Disk) (patterns : List Glob.Pattern) (index : Nat)
    (actual : Entry)
    (found : (disk.completed { config with dryRun := false } patterns).report.entries[index]? =
      some actual) :
    ∃ predicted,
      (disk.completed { config with dryRun := true } patterns).report.entries[index]? =
        some predicted ∧
      disk.Foretells
        ((disk.completed { config with dryRun := false } patterns).report.entries.take index)
        predicted actual := by
  have sameErrors : disk.discoveryEntries { config with dryRun := true } patterns =
      disk.discoveryEntries { config with dryRun := false } patterns := rfl
  have sameFiles : disk.discover { config with dryRun := true } patterns =
      disk.discover { config with dryRun := false } patterns := rfl
  rw [entries_completed] at found ⊢
  rw [entries_completed, sameErrors, sameFiles]
  by_cases early : index < (disk.discoveryEntries { config with dryRun := false } patterns).length
  · rw [List.getElem?_append_left early] at found ⊢
    exact ⟨actual, found, rfl, rfl, .inl rfl⟩
  · rw [Nat.not_lt] at early
    rw [List.getElem?_append_right early] at found ⊢
    rw [List.take_append, List.take_of_length_le early]
    exact foretells_processAll config disk _ _ _ actual found

theorem report_dry (disk : Disk) (patterns : List Glob.Pattern)
    (entries : (disk.completed { config with dryRun := true } patterns).report.entries =
      (disk.completed { config with dryRun := false } patterns).report.entries) :
    (disk.completed { config with dryRun := true } patterns).report =
      { (disk.completed { config with dryRun := false } patterns).report with dryRun := true } := by
  rw [entries_completed, entries_completed] at entries
  simp only [completed, entries, ← Report.foldl_record_dryRun]
  rfl

theorem dry_run_foretells (disk : Disk) (patterns : List Glob.Pattern)
    (valid : config.validate disk = .ok patterns) :
    ∃ dry real, disk.migrate { config with dryRun := true } = .ok dry ∧
      disk.migrate { config with dryRun := false } = .ok real ∧
      dry.report.discovered = real.report.discovered ∧
      dry.report.entries.length = real.report.entries.length ∧
      (∀ (index : Nat) (actual : Entry), real.report.entries[index]? = some actual →
        ∃ predicted, dry.report.entries[index]? = some predicted ∧
          disk.Foretells (real.report.entries.take index) predicted actual) ∧
      ((∀ entry ∈ real.report.entries, entry.outcome.isWriteFailure = false) →
        (∀ (index : Nat) (actual : Entry), real.report.entries[index]? = some actual →
          ¬ disk.Retaken (real.report.entries.take index) actual.path) →
        dry.report = { real.report with dryRun := true }) := by
  have sameLength : (disk.completed { config with dryRun := true } patterns).report.entries.length =
      (disk.completed { config with dryRun := false } patterns).report.entries.length := by
    rw [length_completed, length_completed]
    rfl
  have foretold := foretells_completed config disk patterns
  refine ⟨_, _, disk.migrate_eq_completed { config with dryRun := true } patterns valid,
    disk.migrate_eq_completed { config with dryRun := false } patterns valid, ?_, sameLength,
    foretold, ?_⟩
  · rw [completed, completed, Report.discovered_foldl_record, Report.discovered_foldl_record]
    rfl
  · intro written once
    apply report_dry
    apply List.ext_getElem?
    intro index
    cases found : (disk.completed { config with dryRun := false } patterns).report.entries[index]?
      with
    | none =>
      rw [List.getElem?_eq_none_iff] at found ⊢
      omega
    | some actual =>
      obtain ⟨⟨path, displayPath, outcome⟩, predicted, foretells⟩ := foretold index actual found
      have same : outcome = actual.outcome := by
        rcases foretells.outcome with equal | unwritten | retaken
        · exact equal
        · rw [written actual (List.mem_of_getElem? found)] at unwritten
          cases unwritten
        · exact absurd retaken (once index actual found)
      obtain rfl := same
      obtain rfl := foretells.path
      obtain rfl := foretells.displayPath
      exact predicted

def twoRoutes (second : Item) : Disk where
  items :=
    [([], .directory {}), (placeOf ["api"], .directory {}),
      (placeOf ["api", "a"], .directory {}), (placeOf ["api", "b"], .directory {}),
      (placeOf ["api", "a", "route.ts"], .file {} (Utf8.encode "import x\nfetch(u)".toList)),
      (placeOf ["api", "b", "route.ts"], second)]
  workingDirectory := []

def separate : Disk :=
  twoRoutes (.file {} (Utf8.encode "import x\nfetch(u)".toList))

def doublyNamed : Disk :=
  twoRoutes (.link (Path.ofText "../a/route.ts".toList))

theorem dry_run_foretells_separate :
    Config.validate { root := Path.ofText "api".toList } separate = .ok [] ∧
    ∃ dry real, separate.migrate { root := Path.ofText "api".toList, dryRun := true } = .ok dry ∧
      separate.migrate { root := Path.ofText "api".toList, dryRun := false } = .ok real ∧
      (∀ entry ∈ real.report.entries, entry.outcome.isWriteFailure = false) ∧
      (∀ (index : Nat) (actual : Entry), real.report.entries[index]? = some actual →
        ¬ separate.Retaken (real.report.entries.take index) actual.path) ∧
      real.report.updated = 2 ∧ dry.report = { real.report with dryRun := true } := by
  have valid : Config.validate { root := Path.ofText "api".toList } separate = .ok [] := by rfl
  obtain ⟨dry, real, ranDry, ranReal, -, -, -, whole⟩ :=
    dry_run_foretells { root := Path.ofText "api".toList } separate [] valid
  obtain ⟨written, paths, updated⟩ :
      (∀ entry ∈ real.report.entries, entry.outcome.isWriteFailure = false) ∧
      (real.report.entries.map fun entry => entry.path) =
        [Path.ofText "api/a/route.ts".toList, Path.ofText "api/b/route.ts".toList] ∧
      real.report.updated = 2 := by
    cases ranReal
    decide +kernel
  obtain ⟨first, _, entries, firstPath, rest⟩ := List.map_eq_cons_iff.mp paths
  obtain ⟨second, _, rfl, secondPath, none⟩ := List.map_eq_cons_iff.mp rest
  obtain rfl := List.map_eq_nil_iff.mp none
  have firstPlace : separate.locate true (Path.ofText "api/a/route.ts".toList) =
      .ok (placeOf ["api", "a", "route.ts"]) := by rfl
  have secondPlace : separate.locate true (Path.ofText "api/b/route.ts".toList) =
      .ok (placeOf ["api", "b", "route.ts"]) := by rfl
  have once : ∀ (index : Nat) (actual : Entry), real.report.entries[index]? = some actual →
      ¬ separate.Retaken (real.report.entries.take index) actual.path := by
    rw [entries]
    rintro index actual found ⟨place, located, earlier, member, -, locatedEarlier⟩
    match index with
    | 0 => simp at member
    | 1 =>
      simp only [List.take_succ_cons, List.take_zero, List.mem_singleton] at member
      simp only [List.getElem?_cons_succ, List.getElem?_cons_zero, Option.some.injEq] at found
      subst member found
      rw [secondPath, secondPlace, ← locatedEarlier, firstPath, firstPlace] at located
      revert located
      simp only [Except.ok.injEq]
      decide +kernel
    | _ + 2 => simp at found
  exact ⟨valid, dry, real, ranDry, ranReal, written, once, updated, whole written once⟩

-- The real run finds the file under its second name as it has left it under the first one.
theorem unforetold_doublyNamed : ∃ dry real,
    doublyNamed.migrate { root := Path.ofText "api".toList, dryRun := true } = .ok dry ∧
      doublyNamed.migrate { root := Path.ofText "api".toList, dryRun := false } = .ok real ∧
      (∀ entry ∈ real.report.entries, entry.outcome.isWriteFailure = false) ∧
      (dry.report.entries.map fun entry => entry.outcome) = [.updated false, .updated false] ∧
      (real.report.entries.map fun entry => entry.outcome) =
        [.updated false, .skipped .alreadyUpdated] ∧
      dry.report.updated = 2 ∧ real.report.updated = 1 := by
  refine ⟨_, _, rfl, rfl, ?_⟩
  decide +kernel

end Disk

end RouteMigration
