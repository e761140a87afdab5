import RouteMigration.Proofs.Disk.CanonicalPlace
import RouteMigration.Proofs.Migration.Discovery
import RouteMigration.Proofs.Migration.Effect

set_option autoImplicit false

namespace RouteMigration

namespace Disk

def InsideRoot (disk : Disk) (root : Path) (place : Location) : Prop :=
  ∃ base, disk.canonical root = .ok base ∧ base <+: place

theorem insideRoot_of_mem_discover (disk : Disk) (config : Config) (patterns : List Glob.Pattern)
    (path : Path) (member : path ∈ (disk.discover config patterns).files) (place : Location)
    (located : disk.locate true path = .ok place) :
    disk.canonical path = .ok place ∧ disk.InsideRoot config.root place := by
  obtain ⟨base, root, -, inspected⟩ := disk.of_mem_discover config patterns path member
  obtain ⟨-, -, -, ⟨resolved, canonical, inside⟩, -⟩ :=
    (disk.inspect_eq_routeFile_iff config patterns base _ path).mp inspected
  obtain rfl := disk.canonical_eq_of_locate path place resolved located canonical
  exact ⟨canonical, base, root, inside⟩

/-- Two disks that differ only in what the files outside some region hold. -/
structure AgreeInside (region : Location → Prop) (first second : Disk) : Prop where
  outline : first.outline = second.outline
  item? : ∀ place, region place → first.item? place = second.item? place

variable {region : Location → Prop} {first second : Disk}

theorem AgreeInside.processFile (agree : AgreeInside region first second) (config : Config)
    (path : Path) (within : ∀ place, first.locate true path = .ok place → region place) :
    (first.processFile config path).2 = (second.processFile config path).2 ∧
      AgreeInside region (first.processFile config path).1 (second.processFile config path).1 := by
  have held (place : Location) (located : first.locate true path = .ok place) :
      first.item? place = second.item? place :=
    agree.item? place (within place located)
  refine ⟨processFile_congr agree.outline config path held, ?_, ?_⟩
  · rw [outline_processFile, outline_processFile, agree.outline]
  · intro place inside
    apply item?_processFile_congr agree.outline config path held
    exact agree.item? place inside

theorem AgreeInside.processAll (agree : AgreeInside region first second) (config : Config)
    (files : List Path)
    (within : ∀ path ∈ files, ∀ place, first.locate true path = .ok place → region place) :
    (first.processAll config files).2 = (second.processAll config files).2 ∧
      AgreeInside region (first.processAll config files).1
        (second.processAll config files).1 := by
  induction files generalizing first second with
  | nil => exact ⟨rfl, agree⟩
  | cons path later ih =>
    obtain ⟨outcome, after⟩ := agree.processFile config path (within path (by simp))
    have withinLater : ∀ other ∈ later, ∀ place,
        (first.processFile config path).1.locate true other = .ok place → region place := by
      intro other member place located
      rw [locate_congr (first.outline_processFile config path)] at located
      exact within other (List.mem_cons_of_mem _ member) place located
    obtain ⟨entries, done⟩ := ih after withinLater
    exact ⟨by simp only [Disk.processAll, outcome, entries], done⟩

theorem AgreeInside.completed (agree : AgreeInside region first second) (config : Config)
    (patterns : List Glob.Pattern)
    (within : ∀ path ∈ (first.discover config patterns).files, ∀ place,
      first.locate true path = .ok place → region place) :
    (second.completed config patterns).report = (first.completed config patterns).report ∧
      AgreeInside region (first.completed config patterns).disk
        (second.completed config patterns).disk := by
  obtain ⟨entries, disks⟩ := agree.processAll config _ within
  have found := discover_congr agree.outline config patterns
  simp only [Disk.completed, discoveryEntries, ← found, ← entries]
  exact ⟨trivial, disks⟩

variable (config : Config)

theorem root_boundary (disk : Disk) (patterns : List Glob.Pattern)
    (valid : config.validate disk = .ok patterns) :
    ∃ progress, disk.migrate config = .ok progress ∧
      (∀ place, progress.disk.item? place ≠ disk.item? place →
        disk.InsideRoot config.root place ∧
          ∃ entry ∈ progress.report.entries, disk.canonical entry.path = .ok place) ∧
      ∀ other, AgreeInside (disk.InsideRoot config.root) disk other →
        ∃ second, other.migrate config = .ok second ∧ second.report = progress.report ∧
          AgreeInside (disk.InsideRoot config.root) progress.disk second.disk := by
  refine ⟨_, disk.migrate_eq_completed config patterns valid, ?_, ?_⟩
  · intro place changed
    obtain ⟨entry, member, -, listed, -, mode, data, standing⟩ :=
      entry_of_changed config disk _ place changed
    obtain ⟨canonical, inside⟩ := disk.insideRoot_of_mem_discover config patterns entry.path listed
      place (locate_of_status standing).1
    refine ⟨inside, entry, ?_, canonical⟩
    rw [entries_completed]
    exact List.mem_append_right _ member
  · intro other agree
    have validToo : config.validate other = .ok patterns := by
      rw [← Config.validate_congr agree.outline, valid]
    refine ⟨_, other.migrate_eq_completed config patterns validToo, ?_⟩
    apply agree.completed
    intro path member place located
    exact (disk.insideRoot_of_mem_discover config patterns path member place located).2

-- A link leads out of the root, to a directory whose name the root's name begins.
def bordered : Disk where
  items :=
    [([], .directory {}), (placeOf ["api"], .directory {}),
      (placeOf ["api", "old"], .link (Path.ofText "../api-old".toList)),
      (placeOf ["api", "route.ts"], .file {} (Utf8.encode "import x\nfetch(u)".toList)),
      (placeOf ["api-old"], .directory {}),
      (placeOf ["api-old", "route.ts"], .file {} (Utf8.encode "import x\nfetch(u)".toList))]
  workingDirectory := []

theorem root_boundary_bordered :
    Config.validate { root := Path.ofText "api".toList, followLinks := true } bordered = .ok [] ∧
    AgreeInside (bordered.InsideRoot (Path.ofText "api".toList)) bordered
      (bordered.setData (placeOf ["api-old", "route.ts"]) ByteArray.empty) ∧
    ∃ first second,
      bordered.migrate { root := Path.ofText "api".toList, followLinks := true } = .ok first ∧
      first.disk.item? (placeOf ["api", "route.ts"]) ≠
        bordered.item? (placeOf ["api", "route.ts"]) ∧
      first.disk.item? (placeOf ["api-old", "route.ts"]) =
        bordered.item? (placeOf ["api-old", "route.ts"]) ∧
      (bordered.setData (placeOf ["api-old", "route.ts"]) ByteArray.empty).migrate
        { root := Path.ofText "api".toList, followLinks := true } = .ok second ∧
      second.report = first.report := by
  have valid : Config.validate { root := Path.ofText "api".toList, followLinks := true } bordered =
      .ok [] := by rfl
  have outside : ¬ bordered.InsideRoot (Path.ofText "api".toList)
      (placeOf ["api-old", "route.ts"]) := by
    rintro ⟨base, root, inside⟩
    have resolved : bordered.canonical (Path.ofText "api".toList) = .ok (placeOf ["api"]) := by rfl
    cases root.symm.trans resolved
    revert inside
    decide +kernel
  have agree : AgreeInside (bordered.InsideRoot (Path.ofText "api".toList)) bordered
      (bordered.setData (placeOf ["api-old", "route.ts"]) ByteArray.empty) := by
    refine ⟨(bordered.outline_setData _ _).symm, ?_⟩
    intro place inside
    have apart : place ≠ placeOf ["api-old", "route.ts"] := by
      rintro rfl
      exact outside inside
    simp [item?_setData, apart]
  obtain ⟨first, ran, changes, twice⟩ :=
    root_boundary { root := Path.ofText "api".toList, followLinks := true } bordered [] valid
  obtain ⟨second, ranToo, reports, -⟩ := twice _ agree
  refine ⟨valid, agree, first, second, ran, ?_, ?_, ranToo, reports⟩
  · cases ran
    decide +kernel
  · apply Classical.byContradiction
    intro changed
    exact outside (changes _ changed).1

end Disk

end RouteMigration
