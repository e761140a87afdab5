import RouteMigration.Proofs.Disk.Tree

set_option autoImplicit false

namespace RouteMigration

namespace Disk

theorem advance_unfollowed (disk : Disk) (place : Location) (steps : List Step) :
    disk.advance false place steps = disk.advance true place steps ∨
      ∃ reached target, disk.advance false place steps = .ok (.arrived reached) ∧
        disk.item? reached = some (.link target) := by
  induction steps generalizing place with
  | nil => exact .inl rfl
  | cons step later ih =>
    simp only [advance]
    cases disk.item? place with
    | none => exact .inl rfl
    | some item =>
      cases item with
      | file _ _ | link _ => exact .inl rfl
      | directory mode =>
        cases step with
        | asDirectory => exact ih place
        | here =>
          by_cases searchable : mode.searchable = true
          · simpa [searchable] using ih place
          · simp [searchable]
        | up =>
          by_cases searchable : mode.searchable = true
          · simpa [searchable] using ih place.dropLast
          · simp [searchable]
        | child name =>
          by_cases searchable : mode.searchable = true
          · cases held : disk.item? (place ++ [name]) with
            | none => simp [searchable, held]
            | some item =>
              cases item with
              | file _ _ | directory _ => simpa [searchable, held] using ih (place ++ [name])
              | link target =>
                by_cases last : later = []
                · right
                  exact ⟨place ++ [name], target, by simp [searchable, held, last], held⟩
                · left
                  simp [searchable, held, last]
          · simp [searchable]

theorem throughLinks_unfollowed (disk : Disk) (links : Nat) (place : Location)
    (steps : List Step) :
    throughLinks (disk.advance false) links place steps =
        throughLinks (disk.advance true) links place steps ∨
      ∃ reached target, throughLinks (disk.advance false) links place steps = .ok reached ∧
        disk.item? reached = some (.link target) := by
  induction links using Nat.strongRecOn generalizing place steps with
  | _ links ih =>
    unfold throughLinks
    rcases disk.advance_unfollowed place steps with same | ⟨reached, target, arrived, link⟩
    · rw [same]
      cases disk.advance true place steps with
      | error cause => exact .inl rfl
      | ok stop =>
        cases stop with
        | arrived last => exact .inl rfl
        | link directory target later =>
          by_cases void : target.octets = []
          · simp [void]
          cases links with
          | zero => simp [void]
          | succ links =>
            simpa [void] using ih links (Nat.lt_succ_self links)
              (if target.isAbsolute then [] else directory) (target.steps ++ later)
    · rw [arrived]
      exact .inr ⟨reached, target, rfl, link⟩

theorem locate_unfollowed (disk : Disk) (path : Path) :
    disk.locate false path = disk.locate true path ∨
      ∃ reached target, disk.locate false path = .ok reached ∧
        disk.item? reached = some (.link target) := by
  unfold locate
  split
  next => exact .inl rfl
  split
  next => exact .inl rfl
  split
  next => exact .inl rfl
  next => exact disk.throughLinks_unfollowed linkLimit _ _

theorem kindAt_cases (disk : Disk) (path : Path) (place : Location) (item : Item)
    (standing : disk.status path = .ok (place, item)) :
    disk.kindAt path = .ok .link ∨ disk.kindAt path = .ok item.kind := by
  obtain ⟨located, held⟩ := locate_of_status standing
  rcases disk.locate_unfollowed path with same | ⟨reached, target, found, link⟩
  · right
    simp only [kindAt, same, located, held]
  · left
    simp only [kindAt, found, link, Item.kind]

end Disk

end RouteMigration
