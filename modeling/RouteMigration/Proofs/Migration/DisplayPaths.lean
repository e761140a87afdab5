import RouteMigration.Proofs.Migration.Coverage
import RouteMigration.Proofs.Migration.Effect
import RouteMigration.Proofs.Path.Display

set_option autoImplicit false

namespace RouteMigration

namespace Disk

section Entries

variable (config : Config) (disk : Disk) (patterns : List Glob.Pattern)

theorem file_of_failure (base : Location) (visit : Visit) (error : FileError)
    (failed : disk.inspect config patterns base visit = .failure error) :
    error.file = (Visit.path? visit).getD config.root := by
  unfold inspect at failed
  split at failed
  next =>
    cases failed
    rfl
  next =>
    split at failed
    next => cases failed
    next =>
      split at failed
      next =>
        cases failed
        rfl
      next =>
        split at failed
        next =>
          cases failed
          rfl
        next => split at failed <;> cases failed

theorem below_of_mem_errors (tree : disk.Tree) (error : FileError)
    (member : error ∈ (disk.discover config patterns).errors) :
    ∃ names, (∀ name ∈ names, name.Proper) ∧ error.file = config.root.below names := by
  have atRoot (same : error.file = config.root) :
      ∃ names, (∀ name ∈ names, name.Proper) ∧ error.file = config.root.below names :=
    ⟨[], by simp, same⟩
  unfold discover at member
  split at member
  next cause unresolved =>
    rw [List.mem_singleton] at member
    exact atRoot (congrArg FileError.file member)
  next base reached =>
    simp only [List.mem_filterMap, List.mem_map] at member
    obtain ⟨finding, ⟨visit, visited, inspected⟩, recorded⟩ := member
    have failure : finding = .failure error := by
      cases finding <;> simp_all [Finding.error?]
    rw [failure] at inspected
    have file := file_of_failure config disk patterns base visit error inspected
    cases about : Visit.path? visit with
    | none =>
      rw [about] at file
      exact atRoot file
    | some path =>
      rw [about, Option.getD_some] at file
      rw [file]
      exact below_of_visit config disk tree visit visited path about

theorem below_of_mem_entries (tree : disk.Tree) (progress : Progress)
    (ran : disk.migrate config = .ok progress) (entry : Entry)
    (member : entry ∈ progress.report.entries) :
    entry.displayPath = Path.displayFrom config.root entry.path ∧
      ∃ names, (∀ name ∈ names, name.Proper) ∧ entry.path = config.root.below names := by
  obtain ⟨patterns, -, -, entries⟩ := disk.migrate_eq_ok config progress ran
  rw [entries, List.mem_append] at member
  rcases member with failure | turn
  · obtain ⟨error, recorded, rfl⟩ := List.mem_map.mp failure
    exact ⟨rfl, below_of_mem_errors config disk patterns tree error recorded⟩
  · obtain ⟨path, found, between, -, rfl⟩ := exists_turn config disk _ entry turn
    obtain ⟨base, -, visited, -⟩ := disk.of_mem_discover config patterns path found
    exact ⟨rfl, below_of_mem_walk config disk tree path visited⟩

end Entries

theorem display_faithful (root : Path) :
    (∀ names : List Name, (∀ name ∈ names, name.Proper) →
      (Path.displayFrom root (root.below names)).components =
        (root.below names).components.drop (root.components.length - 2)) ∧
    (∀ first second : List Name, (∀ name ∈ first, name.Proper) →
      (∀ name ∈ second, name.Proper) →
      ((Path.displayFrom root (root.below first)).components =
          (Path.displayFrom root (root.below second)).components ↔
        (root.below first).components = (root.below second).components) ∧
      (Path.displayFrom root (root.below first)).compare
          (Path.displayFrom root (root.below second)) =
        (root.below first).compare (root.below second)) ∧
    ∀ (config : Config) (disk : Disk) (progress : Progress), config.root = root → disk.Tree →
      disk.migrate config = .ok progress →
      ∀ first ∈ progress.report.entries, ∀ second ∈ progress.report.entries,
        (first.displayPath.components = second.displayPath.components ↔
          first.path.components = second.path.components) ∧
        first.displayPath.compare second.displayPath = first.path.compare second.path := by
  have pair (first second : List Name) (firstProper : ∀ name ∈ first, name.Proper)
      (secondProper : ∀ name ∈ second, name.Proper) :=
    And.intro (root.components_displayFrom_eq_iff first second firstProper secondProper)
      (root.compare_displayFrom first second firstProper secondProper)
  refine ⟨?_, pair, ?_⟩
  · intro names proper
    apply Path.components_displayFrom
    rw [root.components_below_root names proper]
    exact List.prefix_append _ _
  · rintro config disk progress rfl tree ran first firstIn second secondIn
    obtain ⟨firstShown, names, proper, firstPath⟩ :=
      below_of_mem_entries config disk tree progress ran first firstIn
    obtain ⟨secondShown, others, properOthers, secondPath⟩ :=
      below_of_mem_entries config disk tree progress ran second secondIn
    rw [firstShown, secondShown, firstPath, secondPath]
    exact pair names others proper properOthers

def neighbouring : Disk where
  items :=
    [([], .directory {}), (placeOf ["app"], .directory {}), (placeOf ["app", "api"], .directory {}),
      (placeOf ["app", "api", "users-old"], .directory {}),
      (placeOf ["app", "api", "users-old", "route.ts"], .file {} (Utf8.encode "fetch(u)".toList)),
      (placeOf ["app", "api", "users"], .directory {}),
      (placeOf ["app", "api", "users", "route.ts"], .file {} (Utf8.encode "fetch(u)".toList))]
  workingDirectory := []

def neighbouringConfig : Config :=
  { root := Path.ofText "./app//api/.".toList }

theorem display_faithful_neighbouring :
    (∀ name ∈ placeOf ["users", "route.ts"], name.Proper) ∧
    (∀ name ∈ placeOf ["users-old", "route.ts"], name.Proper) ∧
    (Path.displayFrom neighbouringConfig.root
        (neighbouringConfig.root.below (placeOf ["users", "route.ts"]))).octets =
      Utf8.encodeOctets "app//api/./users/route.ts".toList ∧
    (Path.displayFrom neighbouringConfig.root
        (neighbouringConfig.root.below (placeOf ["users", "route.ts"]))).components =
      (placeOf ["app", "api", "users", "route.ts"]).map .name ∧
    (Path.displayFrom neighbouringConfig.root
        (neighbouringConfig.root.below (placeOf ["users", "route.ts"]))).compare
      (Path.displayFrom neighbouringConfig.root
        (neighbouringConfig.root.below (placeOf ["users-old", "route.ts"]))) = .lt ∧
    neighbouring.Tree ∧
    ∃ progress, neighbouring.migrate neighbouringConfig = .ok progress ∧
      progress.report.entries.length = 2 ∧
      ∀ first ∈ progress.report.entries, ∀ second ∈ progress.report.entries,
        first.displayPath.compare second.displayPath = first.path.compare second.path := by
  have proper : ∀ name ∈ placeOf ["users", "route.ts"], name.Proper := by decide +kernel
  have properOther : ∀ name ∈ placeOf ["users-old", "route.ts"], name.Proper := by decide +kernel
  have tree : neighbouring.Tree := ⟨by decide +kernel, by decide +kernel, by decide +kernel⟩
  have valid : neighbouringConfig.validate neighbouring = .ok [] := by rfl
  have ran := neighbouring.migrate_eq_completed neighbouringConfig [] valid
  obtain ⟨components, pair, run⟩ := display_faithful neighbouringConfig.root
  refine ⟨proper, properOther, by decide +kernel, ?_, ?_, tree, _, ran, by decide +kernel, ?_⟩
  · rw [components _ proper]
    decide +kernel
  · rw [(pair _ _ proper properOther).2]
    decide +kernel
  · exact fun first firstIn second secondIn =>
      (run neighbouringConfig neighbouring _ rfl tree ran first firstIn second secondIn).2

end Disk

end RouteMigration
