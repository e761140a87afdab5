import RouteMigration.Proofs.Disk.LexicalPlace
import RouteMigration.Proofs.Migration.Discovery
import RouteMigration.Proofs.Migration.Effect

set_option autoImplicit false

namespace RouteMigration

namespace Disk

/-- A path that can lead to another place than the one it spells. -/
def Aliases (disk : Disk) (path : Path) : Prop :=
  Component.up ∈ path.components ∨ disk.LinkOnWay path

theorem rulePath_of_placed (disk : Disk) (path : Path)
    (placed : (path.isAbsolute || disk.hasWorkingDirectory) = true) :
    disk.rulePath path = (path.absolute disk.workingDirectory).shown := by
  rw [rulePath, if_pos placed]

theorem rulePath_of_not_aliases (disk : Disk) (path : Path) (place : Location)
    (placed : (path.isAbsolute || disk.hasWorkingDirectory) = true) (plain : ¬ disk.Aliases path)
    (located : disk.locate true path = .ok place) : disk.rulePath path = place.path.shown := by
  rw [Aliases, not_or] at plain
  rw [disk.rulePath_of_placed path placed, absolute_eq_lexicalPlace,
    ← disk.locate_plain true path place plain.1 plain.2 located]

theorem alias_of_changed (disk : Disk) (config : Config) (progress : Progress)
    (ran : disk.migrate config = .ok progress) (place : Location)
    (excluded : Route.pathExclusion? place.path.shown ≠ none)
    (changed : progress.disk.item? place ≠ disk.item? place) :
    ∃ entry ∈ progress.report.entries, (∃ missing, entry.outcome = .updated missing) ∧
      (∃ mode data, disk.status entry.path = .ok (place, .file mode data)) ∧
      Route.pathExclusion? (entry.path.absolute disk.workingDirectory).shown = none ∧
      disk.Aliases entry.path := by
  obtain ⟨patterns, -, after, entries⟩ := disk.migrate_eq_ok config progress ran
  rw [after] at changed
  obtain ⟨entry, member, updated, listed, eligible, mode, data, standing⟩ :=
    entry_of_changed config disk _ place changed
  have placed := disk.placed_of_mem_discover config patterns entry.path listed
  refine ⟨entry, ?_, updated, ⟨mode, data, standing⟩, ?_, ?_⟩
  · rw [entries]
    exact List.mem_append_right _ member
  · rw [← disk.rulePath_of_placed entry.path placed]
    exact eligible
  · apply Classical.byContradiction
    intro plain
    rw [disk.rulePath_of_not_aliases entry.path place placed plain (locate_of_status standing).1]
      at eligible
    exact excluded eligible

def routeData : ByteArray :=
  Utf8.encode "import x\nfetch(u)".toList

def linked : Disk where
  items :=
    [([], .directory {}), (placeOf ["api"], .directory {}),
      (placeOf ["api", "auth"], .directory {}),
      (placeOf ["api", "auth", "route.ts"], .file {} routeData),
      (placeOf ["api", "users"], .link (Path.ofText "auth".toList))]
  workingDirectory := []

def branching : Disk where
  items :=
    [([], .directory {}), (placeOf ["payment"], .directory {}),
      (placeOf ["payment", "back"], .directory {}),
      (placeOf ["payment", "initiate"], .directory {}),
      (placeOf ["payment", "initiate", "route.ts"], .file {} routeData)]
  workingDirectory := []

theorem changed_public_routes :
    (∃ progress, linked.migrate { root := Path.ofText "api".toList, followLinks := true } =
        .ok progress ∧
      Route.pathExclusion? (placeOf ["api", "auth", "route.ts"]).path.shown = some .authRoute ∧
      progress.disk.item? (placeOf ["api", "auth", "route.ts"]) ≠
        linked.item? (placeOf ["api", "auth", "route.ts"])) ∧
    (∃ progress, branching.migrate { root := Path.ofText "payment/back/../initiate".toList } =
        .ok progress ∧
      Route.pathExclusion? (placeOf ["payment", "initiate", "route.ts"]).path.shown =
        some .subscriptionRoute ∧
      progress.disk.item? (placeOf ["payment", "initiate", "route.ts"]) ≠
        branching.item? (placeOf ["payment", "initiate", "route.ts"])) := by
  refine ⟨⟨_, rfl, ?_, ?_⟩, ⟨_, rfl, ?_, ?_⟩⟩
  · decide +kernel
  · decide +kernel
  · decide +kernel
  · decide +kernel

theorem alias_of_changed_linked : ∃ progress,
    linked.migrate { root := Path.ofText "api".toList, followLinks := true } = .ok progress ∧
      Route.pathExclusion? (placeOf ["api", "auth", "route.ts"]).path.shown ≠ none ∧
      progress.disk.item? (placeOf ["api", "auth", "route.ts"]) ≠
        linked.item? (placeOf ["api", "auth", "route.ts"]) ∧
      ∃ entry ∈ progress.report.entries, (∃ missing, entry.outcome = .updated missing) ∧
        linked.Aliases entry.path := by
  obtain ⟨progress, ran⟩ : ∃ progress, linked.migrate
      { root := Path.ofText "api".toList, followLinks := true } = .ok progress := ⟨_, rfl⟩
  have excluded : Route.pathExclusion? (placeOf ["api", "auth", "route.ts"]).path.shown ≠ none := by
    decide +kernel
  have changed : progress.disk.item? (placeOf ["api", "auth", "route.ts"]) ≠
      linked.item? (placeOf ["api", "auth", "route.ts"]) := by
    cases ran
    decide +kernel
  obtain ⟨entry, member, updated, -, -, aliased⟩ :=
    alias_of_changed linked { root := Path.ofText "api".toList, followLinks := true } progress ran
      (placeOf ["api", "auth", "route.ts"]) excluded changed
  exact ⟨progress, ran, excluded, changed, entry, member, updated, aliased⟩

end Disk

end RouteMigration
