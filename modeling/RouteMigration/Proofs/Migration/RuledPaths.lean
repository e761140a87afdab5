import RouteMigration.Proofs.Disk.Tree
import RouteMigration.Proofs.Migration.Processing
import RouteMigration.Proofs.Migration.PublicRoutes
import RouteMigration.Proofs.Route.PathRules

set_option autoImplicit false

namespace RouteMigration

theorem Component.part_of_proper (name : Name) (proper : name.Proper) :
    (Component.ofPart? name).map Component.part = some name := by
  rw [ofPart?_of_proper name proper]
  rfl

theorem Path.part_of_mem_names (path : Path) (name : Name) (member : name ∈ path.names) :
    (Component.ofPart? name).map Component.part = some name := by
  rw [names, List.mem_map] at member
  obtain ⟨component, given, rfl⟩ := member
  obtain ⟨part, -, kept⟩ := List.mem_filterMap.mp given
  have same := (Component.part_of_ofPart? kept).1
  rw [same, kept, Option.map_some, same]

theorem Location.names_path (place : Location) (single : ∀ name ∈ place, slash ∉ name)
    (parts : ∀ name ∈ place, (Component.ofPart? name).map Component.part = some name) :
    place.path.names = place := by
  have kept : (place.filterMap Component.ofPart?).map Component.part = place := by
    rw [List.map_filterMap]
    exact (List.filterMap_congr parts).trans List.filterMap_some
  rw [Path.names, ← Path.filterMap_opening, Location.path, Location.octets, split_cons_self]
  by_cases top : place = []
  · subst top
    rfl
  · rw [split_join slash place top single, List.filterMap_cons_none rfl, kept]

namespace Disk

theorem unslashed_of_status (disk : Disk) (path : Path) (place : Location) (mode : Mode)
    (data : ByteArray) (standing : disk.status path = .ok (place, .file mode data)) :
    path.octets.getLast? ≠ some slash := by
  intro ends
  obtain ⟨front, octets⟩ := List.getLast?_eq_some_iff.mp ends
  obtain ⟨located, held⟩ := locate_of_status standing
  obtain ⟨-, -, -, resolved⟩ := locate_eq_ok_iff.mp located
  rw [resolve, path.steps_slashed front octets] at resolved
  rcases disk.throughLinks_append linkLimit (disk.startOf path) (Step.within (split slash front))
    with ⟨cause, fails⟩ | ⟨reached, fewer, goes⟩
  · rw [fails] at resolved
    cases resolved
  · rw [goes] at resolved
    obtain rfl := disk.throughLinks_asDirectory fewer reached place resolved
    rw [throughLinks] at resolved
    simp [advance, held] at resolved

section Placed

variable (disk : Disk) (path : Path) (placed : ∀ name ∈ disk.startOf path, name.Proper)

include placed

theorem single_of_mem_lexicalPlace : ∀ name ∈ disk.lexicalPlace path, slash ∉ name := by
  intro name member
  rcases List.mem_append.mp member with above | below
  · exact (placed name above).single
  · exact (path.writable_of_mem_names name below).2

theorem names_absolute :
    (path.absolute disk.workingDirectory).names = disk.startOf path ++ path.names := by
  rw [absolute_eq_lexicalPlace]
  apply Location.names_path _ (disk.single_of_mem_lexicalPlace path placed)
  intro name member
  rcases List.mem_append.mp member with above | below
  · exact Component.part_of_proper name (placed name above)
  · exact path.part_of_mem_names name below

theorem hasWorkingDirectory_of_placed :
    (path.isAbsolute || disk.hasWorkingDirectory) = true := by
  cases absolute : path.isAbsolute with
  | true => rfl
  | false =>
    simp only [startOf, absolute, Bool.false_eq_true, if_false] at placed
    have standing : removedName ∉ disk.workingDirectory := fun member =>
      (placed removedName member).filled rfl
    simpa [hasWorkingDirectory] using standing

theorem pathExclusion?_rulePath : Route.pathExclusion? (disk.rulePath path) =
    Route.pathRules.find? fun reason => Route.Applies (disk.startOf path ++ path.names) reason := by
  rw [disk.rulePath_of_placed path (disk.hasWorkingDirectory_of_placed path placed),
    absolute_eq_lexicalPlace]
  exact Route.pathExclusion?_path _ (disk.single_of_mem_lexicalPlace path placed)

end Placed

theorem processFile_skipped_iff (disk : Disk) (config : Config) (path : Path) (content : Text)
    (reason : SkipReason) (read : disk.readBounded path config.maxFileSize = .ok content)
    (recognised : reason ≠ .noPatternMatched) :
    disk.processFile config path = (disk, .skipped reason) ↔
      Route.exclusion? (disk.rulePath path) content = some reason := by
  rw [processFile, read]
  dsimp only
  cases Route.exclusion? (disk.rulePath path) content with
  | some other => simp
  | none =>
    cases Route.rewrite? content with
    | none => simp [Ne.symm recognised]
    | some result =>
      cases config.dryRun with
      | true => simp
      | false => cases written : disk.overwrite path (Utf8.encode result) <;>
          simp [writeRewritten, written]

-- Only a relative path from a directory that is removed has no names to go by.
theorem ruled_by_names (disk : Disk) (config : Config) (path : Path) (content : Text)
    (placed : ∀ name ∈ disk.startOf path, name.Proper)
    (read : disk.readBounded path config.maxFileSize = .ok content)
    (unmarked : ¬ Route.helperMarker <:+: content) (fetches : Route.fetchMarker <:+: content) :
    (path.absolute disk.workingDirectory).names = disk.startOf path ++ path.names ∧
    path.octets.getLast? ≠ some slash ∧
    Route.exclusion? (disk.rulePath path) content =
      Route.pathRules.find? (Route.Applies (path.absolute disk.workingDirectory).names ·) ∧
    ∀ reason, reason ≠ .noPatternMatched →
      (disk.processFile config path = (disk, .skipped reason) ↔
        Route.pathRules.find? (Route.Applies (path.absolute disk.workingDirectory).names ·) =
          some reason) := by
  obtain ⟨place, mode, data, standing, -, -⟩ :=
    (disk.readBounded_eq_ok_iff path config.maxFileSize content).mp read
  have names := disk.names_absolute path placed
  have unheld : Text.holds Route.helperMarker content = false := by
    rw [Bool.eq_false_iff, Ne, Text.holds_iff]
    exact unmarked
  have reason : Route.exclusion? (disk.rulePath path) content =
      Route.pathRules.find? (Route.Applies (path.absolute disk.workingDirectory).names ·) := by
    rw [Route.exclusion?, unheld, (Text.holds_iff _ _).mpr fetches, names]
    exact disk.pathExclusion?_rulePath path placed
  refine ⟨names, disk.unslashed_of_status path place mode data standing, reason, ?_⟩
  intro other recognised
  rw [← reason]
  exact disk.processFile_skipped_iff config path content other read recognised

def signingIn : Disk where
  items :=
    [([], .directory {}), (placeOf ["srv"], .directory {}),
      (placeOf ["srv", "auth"], .directory {}), (placeOf ["srv", "auth", "sign"], .directory {}),
      (placeOf ["srv", "auth", "sign", "route.ts"], .file {} (Utf8.encode "fetch(u)".toList))]
  workingDirectory := placeOf ["srv", "auth"]

def signingRoute : Path :=
  Path.ofText "./sign//../sign/route.ts".toList

theorem ruled_by_names_signingIn :
    (∀ name ∈ signingIn.startOf signingRoute, name.Proper) ∧
      signingIn.readBounded signingRoute ({} : Config).maxFileSize = .ok "fetch(u)".toList ∧
      ¬ Route.helperMarker <:+: "fetch(u)".toList ∧ Route.fetchMarker <:+: "fetch(u)".toList ∧
      (signingRoute.absolute signingIn.workingDirectory).names =
        placeOf ["srv", "auth", "sign", "..", "sign", "route.ts"] ∧
      signingIn.processFile {} signingRoute = (signingIn, .skipped .authRoute) := by
  have placed : ∀ name ∈ signingIn.startOf signingRoute, name.Proper := by decide +kernel
  have read : signingIn.readBounded signingRoute ({} : Config).maxFileSize =
      .ok "fetch(u)".toList := by rfl
  have unmarked : ¬ Route.helperMarker <:+: "fetch(u)".toList := by
    rw [← Text.holds_iff]
    decide +kernel
  have fetches : Route.fetchMarker <:+: "fetch(u)".toList := by
    rw [← Text.holds_iff]
    decide +kernel
  obtain ⟨names, -, -, skipped⟩ := ruled_by_names signingIn {} signingRoute _ placed read unmarked
    fetches
  refine ⟨placed, read, unmarked, fetches, ?_, ?_⟩
  · rw [names]
    decide +kernel
  · rw [skipped .authRoute (by decide), names]
    decide +kernel

end Disk

end RouteMigration
