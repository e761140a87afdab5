import RouteMigration.Disk.Resolution

set_option autoImplicit false

namespace RouteMigration

namespace Disk

theorem locate_eq_ok_iff {disk : Disk} {followLast : Bool} {path : Path} {place : Location} :
    disk.locate followLast path = .ok place ↔
      0 ∉ path.octets ∧ path.octets ≠ [] ∧ path.octets.length ≤ pathLimit ∧
        disk.resolve followLast (disk.startOf path) path.steps = .ok place := by
  unfold locate
  by_cases printable : 0 ∈ path.octets
  · simp [printable]
  by_cases filled : path.octets = []
  · simp [filled]
  by_cases long : pathLimit < path.octets.length
  · simp [printable, filled, long, Nat.not_le.mpr long]
  · simp [printable, filled, long, Nat.not_lt.mp long]

theorem locate_of_status {disk : Disk} {path : Path} {place : Location} {item : Item}
    (standing : disk.status path = .ok (place, item)) :
    disk.locate true path = .ok place ∧ disk.item? place = some item := by
  unfold status at standing
  split at standing
  next => cases standing
  next located =>
    split at standing
    next => cases standing
    next held =>
      cases standing
      exact ⟨located, held⟩

theorem status_of_locate {disk : Disk} {path : Path} {place : Location} {item : Item}
    (located : disk.locate true path = .ok place) (held : disk.item? place = some item) :
    disk.status path = .ok (place, item) := by
  simp only [status, located, held]

theorem filled_of_canonical {disk : Disk} {path : Path} {place : Location}
    (reached : disk.canonical path = .ok place) : path.octets ≠ [] := by
  intro void
  simp [canonical, void] at reached

theorem item?_of_lookUp {disk : Disk} {place : Location} {item : Item}
    (found : disk.lookUp place = .ok item) : disk.item? place = some item := by
  unfold lookUp at found
  split at found
  next => cases found
  next =>
    split at found
    next => cases found
    next => cases found
    next held =>
      cases found
      exact held

theorem climb_eq_of_advance (disk : Disk) (place : Location) (steps : List Step)
    (stop climbedStop : Stop) (advanced : disk.advance true place steps = .ok stop)
    (climbed : disk.climb place steps = .ok climbedStop) : climbedStop = stop := by
  induction steps generalizing place with
  | nil =>
    cases advanced
    cases climbed
    rfl
  | cons step later ih =>
    unfold advance at advanced
    split at advanced
    next => cases advanced
    next => cases advanced
    next => cases advanced
    next mode standing =>
      cases step with
      | asDirectory => exact ih place advanced climbed
      | here =>
        simp only at advanced
        split at advanced
        next => exact ih place advanced climbed
        next => cases advanced
      | up =>
        simp only at advanced
        split at advanced
        next => exact ih place.dropLast advanced climbed
        next => cases advanced
      | child name =>
        simp only at advanced
        split at advanced
        next => cases advanced
        next =>
          simp only [climb] at climbed
          cases found : disk.lookUp (place ++ [name]) with
          | error cause => simp [found] at climbed
          | ok item =>
            have held := item?_of_lookUp found
            cases item with
            | link target =>
              simp only [held, Bool.true_eq_false, and_false, if_false, Except.ok.injEq] at advanced
              simp only [found, Except.ok.injEq] at climbed
              rw [← advanced, ← climbed]
            | directory mode =>
              simp only [held] at advanced
              simp only [found] at climbed
              exact ih (place ++ [name]) advanced climbed
            | file mode data =>
              simp only [held] at advanced
              simp only [found] at climbed
              split at climbed
              next last =>
                -- A file ends the way, whoever gets there.
                subst last
                cases advanced
                cases climbed
                rfl
              next => cases climbed

end Disk

theorem throughLinks_cases {travel : Location → List Step → Except AccessError Stop} {links : Nat}
    {place reached : Location} {steps : List Step}
    (travelled : throughLinks travel links place steps = .ok reached) :
    travel place steps = .ok (.arrived reached) ∨
    ∃ fewer directory target later, fewer < links ∧
      travel place steps = .ok (.link directory target later) ∧
      throughLinks travel fewer (if target.isAbsolute then [] else directory)
        (target.steps ++ later) = .ok reached := by
  unfold throughLinks at travelled
  split at travelled
  next => cases travelled
  next last arrived =>
    cases travelled
    exact .inl arrived
  next directory target later linked =>
    split at travelled
    next => cases travelled
    next =>
      split at travelled
      next => cases travelled
      next fewer =>
        exact .inr ⟨fewer, directory, target, later, Nat.lt_succ_self fewer, linked, travelled⟩

theorem throughLinks_eq_of_stops {travel climb : Location → List Step → Except AccessError Stop}
    (stops : ∀ place steps stop climbedStop, travel place steps = .ok stop →
      climb place steps = .ok climbedStop → climbedStop = stop)
    (links limit : Nat) (place : Location) (steps : List Step) (reached climbedTo : Location)
    (travelled : throughLinks travel links place steps = .ok reached)
    (climbed : throughLinks climb limit place steps = .ok climbedTo) : climbedTo = reached := by
  induction links using Nat.strongRecOn generalizing limit place steps with
  | _ links ih =>
    rcases throughLinks_cases travelled with arrived | ⟨fewer, _, _, _, less, linked, further⟩
    · rcases throughLinks_cases climbed with arrived' | ⟨_, _, _, _, _, linked', _⟩
      · cases stops place steps _ _ arrived arrived'
        rfl
      · cases stops place steps _ _ arrived linked'
    · rcases throughLinks_cases climbed with arrived' | ⟨_, _, _, _, _, linked', further'⟩
      · cases stops place steps _ _ linked arrived'
      · cases stops place steps _ _ linked linked'
        exact ih fewer less _ _ _ further further'

namespace Disk

theorem canonical_of_placed (disk : Disk) (path : Path) (printable : 0 ∉ path.octets) (filled : path.octets ≠ [])
    (placed : (path.isAbsolute || disk.hasWorkingDirectory) = true) :
    disk.canonical path =
      throughLinks disk.climb linkLimit (disk.startOf path) path.steps := by
  have started : (!path.isAbsolute && !disk.hasWorkingDirectory) = false := by
    rw [← Bool.not_or, placed]
    rfl
  simp only [canonical, printable, filled, started, Bool.false_eq_true, if_false]

theorem canonical_eq_of_locate (disk : Disk) (path : Path) (place canonicalPlace : Location)
    (located : disk.locate true path = .ok place)
    (resolved : disk.canonical path = .ok canonicalPlace) : canonicalPlace = place := by
  obtain ⟨printable, filled, -, travelled⟩ := locate_eq_ok_iff.mp located
  unfold canonical at resolved
  rw [if_neg printable, if_neg filled] at resolved
  split at resolved
  next => cases resolved
  next =>
    exact throughLinks_eq_of_stops disk.climb_eq_of_advance linkLimit linkLimit
      (disk.startOf path) path.steps place canonicalPlace travelled resolved

end Disk

end RouteMigration
