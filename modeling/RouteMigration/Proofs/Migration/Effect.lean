import RouteMigration.Proofs.Migration.Processing
import RouteMigration.Proofs.Migration.Reporting

set_option autoImplicit false

namespace RouteMigration

def Item.size : Item → Nat
  | .file _ data => data.size
  | _ => 0

theorem Route.pathExclusion?_of_exclusion? (path content : Text)
    (eligible : Route.exclusion? path content = none) : Route.pathExclusion? path = none := by
  unfold exclusion? at eligible
  split at eligible
  next => cases eligible
  next =>
    split at eligible
    next => cases eligible
    next => exact eligible

namespace Disk

variable (config : Config)

theorem outline_processAll (disk : Disk) (files : List Path) :
    (disk.processAll config files).1.outline = disk.outline := by
  induction files generalizing disk with
  | nil => rfl
  | cons path later ih =>
    rw [processAll, ih]
    exact disk.outline_processFile config path

theorem processAll_dry (dry : config.dryRun = true) (disk : Disk) (files : List Path) :
    (disk.processAll config files).1 = disk := by
  induction files generalizing disk with
  | nil => rfl
  | cons path later ih =>
    rw [processAll, ih]
    exact disk.processFile_dry config dry path

def Updates (disk : Disk) (entries : List Entry) (place : Location) : Prop :=
  ∃ entry ∈ entries, (∃ missing, entry.outcome = .updated missing) ∧
    disk.locate true entry.path = .ok place

theorem updates_cons (disk : Disk) (path : Path) (outcome : Outcome) (later : List Entry)
    (place : Location) :
    disk.Updates (config.entryFor path outcome :: later) place ↔
      ((∃ missing, outcome = .updated missing) ∧ disk.locate true path = .ok place) ∨
        disk.Updates later place := by
  simp [Updates, Config.entryFor]

theorem updates_congr {first second : Disk} (same : first.outline = second.outline)
    (entries : List Entry) (place : Location) :
    first.Updates entries place ↔ second.Updates entries place := by
  simp only [Updates, locate_congr same]

theorem item?_processAll (disk : Disk) (files : List Path) (place : Location)
    (elsewhere : ¬ disk.Updates (disk.processAll config files).2 place) :
    (disk.processAll config files).1.item? place = disk.item? place := by
  induction files generalizing disk with
  | nil => rfl
  | cons path later ih =>
    have same := disk.outline_processFile config path
    simp only [processAll, updates_cons, not_or] at elsewhere
    obtain ⟨first, rest⟩ := elsewhere
    have kept : (disk.processFile config path).1.item? place = disk.item? place := by
      apply item?_processFile
      intro updated located
      exact first ⟨updated, located⟩
    rw [processAll, ih _ (fun updates => rest ((updates_congr same _ _).mp updates)), kept]

-- The length of a file is a 64-bit word.
def Storable (disk : Disk) : Prop :=
  ∀ entry ∈ disk.items, entry.2.size < UInt64.size

theorem size_lt_of_status (disk : Disk) (storable : disk.Storable) (path : Path) (place : Location)
    (mode : Mode) (data : ByteArray) (standing : disk.status path = .ok (place, .file mode data)) :
    data.size < UInt64.size := by
  have held : disk.items.lookup place = some (.file mode data) := (locate_of_status standing).2
  obtain ⟨before, after, items, -⟩ := List.lookup_eq_some_iff.mp held
  exact storable (place, .file mode data) (by simp [items])

theorem processFile_updated (disk : Disk) (storable : disk.Storable) (path : Path) (missing : Bool)
    (updated : (disk.processFile config path).2 = .updated missing) :
    ∃ place mode data content result,
      disk.status path = .ok (place, .file mode data) ∧
      data.size ≤ config.maxFileSize.toNat ∧
      Utf8.decode? data = some content ∧
      Route.exclusion? (disk.rulePath path) content = none ∧
      Route.rewrite? content = some result ∧
      missing = Route.helperImportMissing result ∧
      (config.dryRun = false →
        (disk.processFile config path).1.item? place = some (.file mode (Utf8.encode result)) ∧
          ∀ other, other ≠ place →
            (disk.processFile config path).1.item? other = disk.item? other) := by
  rcases disk.processFile_cases config path with
    ⟨outcome, left, never⟩ | ⟨place, mode, data, content, result, standing, rewritable, -, done⟩
  · rw [left] at updated
    exact absurd updated (never missing)
  · obtain ⟨place', mode', data', standing', -, bounded⟩ := rewritable.standing
    cases standing.symm.trans standing'
    have size := disk.size_lt_of_status storable path place mode data standing
    obtain ⟨fits, decoded⟩ :=
      (boundedText_eq_ok_iff path config.maxFileSize data size content).mp bounded
    rw [done] at updated
    simp only [Outcome.updated.injEq] at updated
    refine ⟨place, mode, data, content, result, standing, fits, decoded, rewritable.eligible,
      rewritable.changed, updated.symm, ?_⟩
    intro real
    have held := (locate_of_status standing).2
    simp only [done, real, Bool.false_eq_true, if_false, item?_setData, held]
    exact ⟨rfl, fun other apart => by simp [apart]⟩

theorem processFile_unchanged (disk : Disk) (path : Path)
    (unwritten : config.dryRun = true ∨
      ∀ missing, (disk.processFile config path).2 ≠ .updated missing) :
    (disk.processFile config path).1 = disk := by
  rcases unwritten with dry | never
  · exact disk.processFile_dry config dry path
  · rcases disk.processFile_cases config path with
      ⟨outcome, left, -⟩ | ⟨place, mode, data, content, result, -, -, -, done⟩
    · rw [left]
    · exact absurd (by rw [done]) (never (Route.helperImportMissing result))

theorem exists_turn (disk : Disk) (files : List Path) (entry : Entry)
    (member : entry ∈ (disk.processAll config files).2) :
    ∃ path ∈ files, ∃ between : Disk, between.outline = disk.outline ∧
      entry = config.entryFor path (between.processFile config path).2 := by
  induction files generalizing disk with
  | nil => simp [processAll] at member
  | cons path later ih =>
    simp only [processAll, List.mem_cons] at member
    rcases member with rfl | member
    · exact ⟨path, by simp, disk, rfl, rfl⟩
    · obtain ⟨other, listed, between, same, turn⟩ := ih _ member
      exact ⟨other, List.mem_cons_of_mem _ listed, between,
        same.trans (disk.outline_processFile config path), turn⟩

theorem standing_of_updated (disk : Disk) (files : List Path) (entry : Entry)
    (member : entry ∈ (disk.processAll config files).2) (missing : Bool)
    (updated : entry.outcome = .updated missing) :
    ∃ place mode data, disk.status entry.path = .ok (place, .file mode data) ∧
      Route.pathExclusion? (disk.rulePath entry.path) = none := by
  obtain ⟨path, -, between, same, rfl⟩ := exists_turn config disk files entry member
  simp only [Config.entryFor] at updated ⊢
  rcases between.processFile_cases config path with
    ⟨outcome, left, never⟩ | ⟨place, mode, data, content, result, standing, rewritable, -, -⟩
  · rw [left] at updated
    exact absurd updated (never missing)
  · obtain ⟨other, standing⟩ := standing_congr same path place mode data standing
    have eligible := Route.pathExclusion?_of_exclusion? _ content rewritable.eligible
    rw [rulePath_congr same] at eligible
    exact ⟨place, mode, other, standing, eligible⟩

theorem entry_of_changed (disk : Disk) (files : List Path) (place : Location)
    (changed : (disk.processAll config files).1.item? place ≠ disk.item? place) :
    ∃ entry ∈ (disk.processAll config files).2, (∃ missing, entry.outcome = .updated missing) ∧
      entry.path ∈ files ∧ Route.pathExclusion? (disk.rulePath entry.path) = none ∧
      ∃ mode data, disk.status entry.path = .ok (place, .file mode data) := by
  have updates : disk.Updates (disk.processAll config files).2 place := by
    apply Classical.byContradiction
    intro never
    exact changed (item?_processAll config disk files place never)
  obtain ⟨entry, member, ⟨missing, updated⟩, located⟩ := updates
  obtain ⟨other, mode, data, standing, eligible⟩ :=
    standing_of_updated config disk files entry member missing updated
  cases located.symm.trans (locate_of_status standing).1
  obtain ⟨path, listed, between, -, turn⟩ := exists_turn config disk files entry member
  have same : entry.path = path := by rw [turn]; rfl
  rw [← same] at listed
  exact ⟨entry, member, ⟨missing, updated⟩, listed, eligible, mode, data, standing⟩

theorem effect_exact (disk : Disk) (storable : disk.Storable) :
    (∀ path,
      (∀ missing, (disk.processFile config path).2 = .updated missing →
        ∃ place mode data content result,
          disk.status path = .ok (place, .file mode data) ∧
          data.size ≤ config.maxFileSize.toNat ∧
          Utf8.decode? data = some content ∧
          Route.exclusion? (disk.rulePath path) content = none ∧
          Route.rewrite? content = some result ∧
          missing = Route.helperImportMissing result ∧
          (config.dryRun = false →
            (disk.processFile config path).1.item? place = some (.file mode (Utf8.encode result)) ∧
              ∀ other, other ≠ place →
                (disk.processFile config path).1.item? other = disk.item? other)) ∧
      ((config.dryRun = true ∨ ∀ missing, (disk.processFile config path).2 ≠ .updated missing) →
        (disk.processFile config path).1 = disk)) ∧
    ∀ patterns, config.validate disk = .ok patterns →
      ∃ progress, disk.migrate config = .ok progress ∧
        (∀ place, progress.disk.item? place ≠ disk.item? place →
          ∃ entry ∈ progress.report.entries, (∃ missing, entry.outcome = .updated missing) ∧
            ∃ mode data, disk.status entry.path = .ok (place, .file mode data)) ∧
        progress.disk.outline = disk.outline ∧
        (config.dryRun = true → progress.disk = disk) := by
  constructor
  · intro path
    exact ⟨fun missing => processFile_updated config disk storable path missing,
      processFile_unchanged config disk path⟩
  · intro patterns valid
    obtain ⟨progress, ran⟩ := migrate_of_valid config disk patterns valid
    obtain ⟨_, -, after, entries⟩ := disk.migrate_eq_ok config progress ran
    refine ⟨progress, ran, ?_, ?_, ?_⟩
    · intro place changed
      rw [after] at changed
      obtain ⟨entry, member, updated, -, -, standing⟩ :=
        entry_of_changed config disk _ place changed
      refine ⟨entry, ?_, updated, standing⟩
      rw [entries]
      exact List.mem_append_right _ member
    · rw [after]
      exact outline_processAll config disk _
    · intro dry
      rw [after]
      exact processAll_dry config dry disk _

def placeOf (names : List String) : Location :=
  names.map nameOf

def ofRoute (content : Text) : Disk where
  items :=
    [([], .directory {}), (placeOf ["api"], .directory {}),
      (placeOf ["api", "route.ts"], .file {} (Utf8.encode content))]
  workingDirectory := []

def importing : Disk :=
  ofRoute "import x\nfetch(u)".toList

def importedRoute : Text :=
  "import x\n".toList ++ Route.helperImportLine ++ "\nfetch(u)".toList

theorem effect_exact_importing :
    importing.Storable ∧
      (importing.processFile { root := Path.ofText "api".toList }
        (Path.ofText "api/route.ts".toList)).2 = .updated false ∧
      (∃ place mode data content result,
        importing.status (Path.ofText "api/route.ts".toList) = .ok (place, .file mode data) ∧
          Utf8.decode? data = some content ∧ Route.rewrite? content = some result ∧
          (importing.processFile { root := Path.ofText "api".toList }
            (Path.ofText "api/route.ts".toList)).1.item? place =
              some (.file mode (Utf8.encode result))) ∧
      Config.validate { root := Path.ofText "api".toList } importing = .ok [] ∧
      ∃ progress, importing.migrate { root := Path.ofText "api".toList } = .ok progress ∧
        progress.disk.outline = importing.outline ∧
        progress.disk.item? (placeOf ["api", "route.ts"]) =
          some (.file {} (Utf8.encode importedRoute)) := by
  have storable : importing.Storable := by
    intro entry member
    simp only [importing, ofRoute, List.mem_cons, List.not_mem_nil, or_false] at member
    rcases member with rfl | rfl | rfl <;> decide +kernel
  have updated : (importing.processFile { root := Path.ofText "api".toList }
      (Path.ofText "api/route.ts".toList)).2 = .updated false := by decide +kernel
  have valid : Config.validate { root := Path.ofText "api".toList } importing = .ok [] := by rfl
  obtain ⟨turn, run⟩ := effect_exact { root := Path.ofText "api".toList } importing storable
  obtain ⟨place, mode, data, content, result, standing, -, decoded, -, changed, -, written⟩ :=
    (turn (Path.ofText "api/route.ts".toList)).1 false updated
  obtain ⟨progress, ran, -, outline, -⟩ := run [] valid
  have rewritten : progress.disk.item? (placeOf ["api", "route.ts"]) =
      some (.file {} (Utf8.encode importedRoute)) := by
    cases ran
    decide +kernel
  exact ⟨storable, updated,
    ⟨place, mode, data, content, result, standing, decoded, changed, (written rfl).1⟩, valid,
    progress, ran, outline, rewritten⟩

end Disk

end RouteMigration
