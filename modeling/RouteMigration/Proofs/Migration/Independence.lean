import RouteMigration.Proofs.Disk.OpenWay
import RouteMigration.Proofs.Migration.Coverage
import RouteMigration.Proofs.Migration.DryRun

set_option autoImplicit false

namespace RouteMigration

namespace Disk

def Separate (disk : Disk) (files : List Path) : Prop :=
  files.Pairwise fun first second =>
    ∀ place, disk.locate true first = .ok place → disk.locate true second ≠ .ok place

theorem Alike.separate {first second : Disk} (alike : first.Alike second) {files : List Path}
    (separate : first.Separate files) : second.Separate files := by
  refine separate.imp fun apart place => ?_
  rw [← alike.locate, ← alike.locate]
  exact apart place

theorem exists_place_of_mem_discover (config : Config) (disk : Disk)
    (patterns : List Glob.Pattern) (path : Path)
    (member : path ∈ (disk.discover config patterns).files) :
    ∃ place, disk.locate true path = .ok place := by
  obtain ⟨base, -, -, inspected⟩ := disk.of_mem_discover config patterns path member
  obtain ⟨-, -, regular, -, -⟩ :=
    (disk.inspect_eq_routeFile_iff config patterns base _ path).mp inspected
  unfold isFile at regular
  split at regular
  next place _ _ standing => exact ⟨place, (locate_of_status standing).1⟩
  next => cases regular

variable (config : Config)

section Turns

variable (disk : Disk)

theorem item?_of_elsewhere (files : List Path) (place : Location)
    (elsewhere : ∀ path ∈ files, disk.locate true path ≠ .ok place) :
    (disk.processAll config files).1.item? place = disk.item? place := by
  apply item?_processAll
  rintro ⟨entry, member, -, located⟩
  obtain ⟨path, listed, between, -, rfl⟩ := exists_turn config disk files entry member
  exact elsewhere path listed located

theorem turn_after (path other : Path)
    (apart : ∀ place, disk.locate true path = .ok place → disk.locate true other ≠ .ok place) :
    ((disk.processFile config path).1.processFile config other).2 =
        (disk.processFile config other).2 ∧
      ∀ place, disk.locate true other = .ok place →
        ((disk.processFile config path).1.processFile config other).1.item? place =
          (disk.processFile config other).1.item? place := by
  have same := disk.outline_processFile config path
  have kept (place : Location) (located : disk.locate true other = .ok place) :
      (disk.processFile config path).1.item? place = disk.item? place :=
    disk.item?_processFile config path place fun _ reached => apart place reached located
  have held (place : Location)
      (located : (disk.processFile config path).1.locate true other = .ok place) :
      (disk.processFile config path).1.item? place = disk.item? place := by
    rw [locate_congr same] at located
    exact kept place located
  exact ⟨processFile_congr same config other held, fun place located =>
    item?_processFile_congr same config other held place (kept place located)⟩

theorem turn_of_separate (files : List Path) (separate : disk.Separate files) :
    (disk.processAll config files).2 =
        files.map (fun path => config.entryFor path (disk.processFile config path).2) ∧
      ∀ path ∈ files, ∀ place, disk.locate true path = .ok place →
        (disk.processAll config files).1.item? place =
          (disk.processFile config path).1.item? place := by
  induction files generalizing disk with
  | nil => simp [processAll]
  | cons path later ih =>
    obtain ⟨apart, separateLater⟩ := List.pairwise_cons.mp separate
    have same := disk.outline_processFile config path
    obtain ⟨entries, items⟩ :=
      ih (disk.processFile config path).1 ((alike_of_outline same.symm).separate separateLater)
    simp only [processAll, entries, List.map_cons]
    constructor
    · congr 1
      apply List.map_congr_left
      intro other member
      rw [(turn_after config disk path other (apart other member)).1]
    · intro other member place located
      rcases List.mem_cons.mp member with rfl | rest
      · apply item?_of_elsewhere
        intro next listed reached
        rw [locate_congr same] at reached
        exact apart next listed place located reached
      · rw [items other rest place (by rwa [locate_congr same])]
        exact (turn_after config disk path other (apart other rest)).2 place located

end Turns

theorem separate_discover (disk : Disk) (tree : disk.Tree) (unlinked : disk.Unlinked)
    (patterns : List Glob.Pattern) (valid : config.validate disk = .ok patterns) :
    disk.Separate (disk.discover config patterns).files := by
  obtain ⟨base, mode, standing⟩ := root_of_valid config disk patterns valid
  obtain ⟨root, -⟩ := locate_of_status standing
  obtain ⟨-, filled, -, -⟩ := locate_eq_ok_iff.mp root
  have distinct := Path.nodup_of_increasing _ (disk.increasing_discover config patterns)
  refine distinct.imp_of_mem ?_
  intro first second firstIn secondIn different place firstLocated secondLocated
  obtain ⟨_, -, firstVisited, -⟩ := disk.of_mem_discover config patterns first firstIn
  obtain ⟨_, -, secondVisited, -⟩ := disk.of_mem_discover config patterns second secondIn
  obtain ⟨names, proper, rfl⟩ := below_of_mem_walk config disk tree first firstVisited
  obtain ⟨others, properOthers, rfl⟩ := below_of_mem_walk config disk tree second secondVisited
  have firstPlace := disk.place_below unlinked _ filled names proper base place root firstLocated
  have secondPlace :=
    disk.place_below unlinked _ filled others properOthers base place root secondLocated
  exact different (by rw [List.append_cancel_left (firstPlace.symm.trans secondPlace)])

/-- Two disks that differ at most in the mode and the data of the file at one place. -/
structure AgreeApart (place : Location) (first second : Disk) : Prop where
  alike : first.Alike second
  item? : ∀ other, other ≠ place → first.item? other = second.item? other

theorem AgreeApart.processFile {place : Location} {first second : Disk}
    (agree : AgreeApart place first second) (path : Path)
    (apart : first.locate true path ≠ .ok place) :
    (second.processFile config path).2 = (first.processFile config path).2 ∧
      ∀ other, other ≠ place → (second.processFile config path).1.item? other =
        (first.processFile config path).1.item? other := by
  have held (other : Location) (located : first.locate true path = .ok other) :
      first.item? other = second.item? other :=
    agree.item? other fun same => apart (same ▸ located)
  exact ⟨(agree.alike.processFile config path held).symm, fun other different =>
    (agree.alike.item?_processFile config path held other (agree.item? other different)).symm⟩

theorem AgreeApart.processAll {place : Location} {first second : Disk}
    (agree : AgreeApart place first second) (files : List Path) (separate : first.Separate files)
    (other : Location) (different : other ≠ place) :
    (second.processAll config files).1.item? other =
      (first.processAll config files).1.item? other := by
  by_cases led : ∃ path ∈ files, first.locate true path = .ok other
  · obtain ⟨path, member, located⟩ := led
    have apart : first.locate true path ≠ .ok place := by
      rintro reached
      cases located.symm.trans reached
      exact different rfl
    rw [(turn_of_separate config first files separate).2 path member other located,
      (turn_of_separate config second files (agree.alike.separate separate)).2 path member other
        (by rwa [← agree.alike.locate])]
    exact (agree.processFile config path apart).2 other different
  · have elsewhere : ∀ path ∈ files, first.locate true path ≠ .ok other :=
      fun path member located => led ⟨path, member, located⟩
    rw [item?_of_elsewhere config first files other elsewhere,
      item?_of_elsewhere config second files other
        (fun path member => by rw [← agree.alike.locate]; exact elsewhere path member)]
    exact (agree.item? other different).symm

theorem files_independent (disk : Disk) (tree : disk.Tree) (unlinked : disk.Unlinked)
    (patterns : List Glob.Pattern) (valid : config.validate disk = .ok patterns) :
    ∃ progress, disk.migrate config = .ok progress ∧
      progress.report.entries = disk.discoveryEntries config patterns ++
        (disk.discover config patterns).files.map
          (fun path => config.entryFor path (disk.processFile config path).2) ∧
      (∀ path ∈ (disk.discover config patterns).files, ∃ place,
        disk.locate true path = .ok place ∧
          progress.disk.item? place = (disk.processFile config path).1.item? place) ∧
      ∀ place other, AgreeApart place disk other →
        ∃ second, other.migrate config = .ok second ∧
          second.report.entries = disk.discoveryEntries config patterns ++
            (disk.discover config patterns).files.map
              (fun path => config.entryFor path (other.processFile config path).2) ∧
          (∀ path ∈ (disk.discover config patterns).files, disk.locate true path ≠ .ok place →
            (other.processFile config path).2 = (disk.processFile config path).2) ∧
          ∀ elsewhere, elsewhere ≠ place →
            second.disk.item? elsewhere = progress.disk.item? elsewhere := by
  have separate := separate_discover config disk tree unlinked patterns valid
  obtain ⟨entries, items⟩ := turn_of_separate config disk _ separate
  refine ⟨_, disk.migrate_eq_completed config patterns valid, ?_, ?_, ?_⟩
  · rw [entries_completed, entries]
  · intro path member
    obtain ⟨place, located⟩ := exists_place_of_mem_discover config disk patterns path member
    exact ⟨place, located, items path member place located⟩
  · intro place other agree
    have found := agree.alike.discover config patterns
    have validToo : config.validate other = .ok patterns := by
      rw [← agree.alike.validate, valid]
    obtain ⟨entriesToo, -⟩ := turn_of_separate config other _ (agree.alike.separate separate)
    refine ⟨_, other.migrate_eq_completed config patterns validToo, ?_, ?_, ?_⟩
    · rw [entries_completed, discoveryEntries, ← found, entriesToo]
      rfl
    · exact fun path _ apart => (agree.processFile config path apart).1
    · intro elsewhere different
      simp only [completed, ← found]
      exact agree.processAll config _ separate elsewhere different

def halfReadable : Disk :=
  twoRoutes (.file { readable := false } (Utf8.encode "import x\nfetch(u)".toList))

theorem agreeApart_halfReadable :
    AgreeApart (placeOf ["api", "b", "route.ts"]) separate halfReadable := by
  refine ⟨rfl, ?_⟩
  intro other different
  simp only [item?, separate, halfReadable, twoRoutes, List.lookup_cons]
  rw [beq_false_of_ne different]

theorem files_independent_separate :
    separate.Tree ∧ separate.Unlinked ∧
    Config.validate { root := Path.ofText "api".toList } separate = .ok [] ∧
    ∃ first second,
      separate.migrate { root := Path.ofText "api".toList } = .ok first ∧
      halfReadable.migrate { root := Path.ofText "api".toList } = .ok second ∧
      first.report.updated = 2 ∧ second.report.errored = 1 ∧
      second.disk.item? (placeOf ["api", "a", "route.ts"]) =
        first.disk.item? (placeOf ["api", "a", "route.ts"]) ∧
      first.disk.item? (placeOf ["api", "a", "route.ts"]) =
        some (.file {} (Utf8.encode importedRoute)) ∧
      first.disk.item? (placeOf ["api", "b", "route.ts"]) =
        some (.file {} (Utf8.encode importedRoute)) ∧
      second.disk.item? (placeOf ["api", "b", "route.ts"]) =
        halfReadable.item? (placeOf ["api", "b", "route.ts"]) := by
  have tree : separate.Tree := ⟨by decide +kernel, by decide +kernel, by decide +kernel⟩
  have plainItems : ∀ entry ∈ separate.items, entry.2.kind ≠ .link := by decide +kernel
  have unlinked : separate.Unlinked := fun place target held =>
    plainItems _ ((tree.item?_eq_some_iff place _).mp held) rfl
  have valid : Config.validate { root := Path.ofText "api".toList } separate = .ok [] := by rfl
  obtain ⟨first, ran, -, -, others⟩ :=
    files_independent { root := Path.ofText "api".toList } separate tree unlinked [] valid
  obtain ⟨second, ranToo, -, -, items⟩ := others _ _ agreeApart_halfReadable
  have rewritten : first.report.updated = 2 ∧
      first.disk.item? (placeOf ["api", "a", "route.ts"]) =
        some (.file {} (Utf8.encode importedRoute)) ∧
      first.disk.item? (placeOf ["api", "b", "route.ts"]) =
        some (.file {} (Utf8.encode importedRoute)) := by
    cases ran
    decide +kernel
  have failed : second.report.errored = 1 ∧
      second.disk.item? (placeOf ["api", "b", "route.ts"]) =
        halfReadable.item? (placeOf ["api", "b", "route.ts"]) := by
    cases ranToo
    decide +kernel
  have shared : second.disk.item? (placeOf ["api", "a", "route.ts"]) =
      first.disk.item? (placeOf ["api", "a", "route.ts"]) :=
    items _ (by decide +kernel)
  exact ⟨tree, unlinked, valid, first, second, ran, ranToo, rewritten.1, failed.1, shared,
    rewritten.2.1, rewritten.2.2, failed.2⟩

end Disk

end RouteMigration
