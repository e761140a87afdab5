import RouteMigration.Proofs.Disk.IdleSteps
import RouteMigration.Proofs.Disk.OpenWay

set_option autoImplicit false

namespace RouteMigration

def Name.Writable (name : Name) : Prop :=
  name ≠ [] ∧ slash ∉ name

theorem Location.path_inj (first second : Location) (firstWritable : ∀ name ∈ first, name.Writable)
    (secondWritable : ∀ name ∈ second, name.Writable) (same : first.path = second.path) :
    first = second := by
  have joined : join slash first = join slash second := by
    simpa [Location.path, Location.octets] using same
  have void (place : Location) (writable : ∀ name ∈ place, name.Writable)
      (nothing : join slash place = []) : place = [] := by
    cases place with
    | nil => rfl
    | cons name later =>
      have length := length_join_cons name later
      simp only [nothing, List.length_nil] at length
      exact absurd (List.eq_nil_of_length_eq_zero (by omega)) (writable name (by simp)).1
  by_cases top : join slash first = []
  · rw [void first firstWritable top, void second secondWritable (joined ▸ top)]
  · have firstNames : first ≠ [] := by rintro rfl; exact top rfl
    have secondNames : second ≠ [] := by rintro rfl; exact top joined
    rw [← split_join slash first firstNames fun name member => (firstWritable name member).2,
      joined, split_join slash second secondNames fun name member => (secondWritable name member).2]

namespace Step

theorem exists_of_mem_ofParts (parts : List Name) (step : Step) (member : step ∈ ofParts parts) :
    step = .asDirectory ∨ ∃ part, part ≠ [] ∧ step = ofName part := by
  induction parts with
  | nil => simp [ofParts] at member
  | cons part later ih =>
    by_cases void : part = []
    · cases later with
      | nil =>
        left
        simpa [ofParts, void] using member
      | cons next later => exact ih (by simpa [ofParts, void] using member)
    · cases later with
      | nil =>
        right
        exact ⟨part, void, by simpa [ofParts, void] using member⟩
      | cons next later =>
        simp only [ofParts, void, if_false, List.mem_cons] at member
        rcases member with rfl | other
        · exact .inr ⟨part, void, rfl⟩
        · exact ih other

theorem moving_ofParts (parts : List Name) :
    moving (ofParts parts) = (names (ofParts parts)).map ofName := by
  have written : ∀ step ∈ ofParts parts, step.idle = false → step.name?.map ofName = some step := by
    intro step member moves
    rcases exists_of_mem_ofParts parts step member with rfl | ⟨part, -, rfl⟩
    · simp [idle] at moves
    · unfold ofName at moves ⊢
      split
      next here => simp [here, idle] at moves
      split
      next => rfl
      next here up => simp [name?, here, up]
  generalize ofParts parts = steps at written
  induction steps with
  | nil => rfl
  | cons step later ih =>
    have rest := ih fun other member => written other (List.mem_cons_of_mem _ member)
    cases step with
    | here | asDirectory => exact rest
    | up => exact congrArg (List.cons .up) rest
    | child name =>
      have first : ofName name = .child name := by
        simpa [name?] using written (.child name) (by simp) rfl
      calc moving (.child name :: later) = .child name :: moving later := rfl
        _ = ofName name :: (names later).map ofName := by rw [first, rest]

end Step

theorem Component.part_of_ofPart? {part : Name} {component : Component}
    (kept : Component.ofPart? part = some component) : component.part = part ∧ part ≠ [] := by
  unfold ofPart? at kept
  split at kept
  next => cases kept
  next filled =>
    rw [not_or] at filled
    split at kept
    next up => cases kept; exact ⟨up.symm, filled.1⟩
    next => cases kept; exact ⟨rfl, filled.1⟩

namespace Path

theorem moving_steps (path : Path) : Step.moving path.steps = path.names.map Step.ofName := by
  rw [← path.names_steps]
  exact Step.moving_ofParts _

theorem writable_of_mem_names (path : Path) (name : Name) (member : name ∈ path.names) :
    name.Writable := by
  rw [names, ← path.filterMap_opening, List.mem_map] at member
  obtain ⟨component, given, rfl⟩ := member
  obtain ⟨part, piece, kept⟩ := List.mem_filterMap.mp given
  obtain ⟨same, filled⟩ := Component.part_of_ofPart? kept
  rw [same]
  exact ⟨filled, not_mem_of_mem_split slash path.octets part piece⟩

theorem span_names_le (path : Path) (absolute : path.isAbsolute = true) :
    Location.span path.names ≤ path.octets.length := by
  obtain ⟨rest, octets⟩ := path.exists_octets_of_isAbsolute absolute
  have shorter (parts : List Name) :
      Location.span ((parts.filterMap Component.ofPart?).map Component.part) ≤
        Location.span parts := by
    induction parts with
    | nil => exact Nat.le_refl _
    | cons part later ih =>
      cases kept : Component.ofPart? part with
      | none => simp only [List.filterMap_cons, kept, Location.span]; omega
      | some component =>
        simp only [List.filterMap_cons, kept, List.map_cons, Location.span,
          (Component.part_of_ofPart? kept).1]
        omega
  obtain ⟨first, later, pieces⟩ := List.exists_cons_of_ne_nil (split_ne_nil slash rest)
  have whole : Location.span (first :: later) = path.octets.length := by
    rw [octets, List.length_cons, ← join_split slash rest, pieces, length_join_cons, Location.span]
    omega
  have parts : path.opening.2.filterMap Component.ofPart? =
      (first :: later).filterMap Component.ofPart? := by
    rw [← path.filterMap_opening, octets, split_cons_self, pieces]
    rfl
  rw [names, parts, ← whole]
  exact shorter (first :: later)

variable (path : Path) (filled : path.octets ≠ []) (name : Name) (proper : name.Proper)

include filled proper

theorem names_joined : (path.joined name).names = path.names ++ [name] := by
  obtain ⟨lead, steps, joined⟩ := path.steps_joined filled name proper
  rw [← names_steps, ← names_steps, joined]
  rcases steps with same | slashed
  · rw [same]
    simp [Step.names, Step.name?]
  · rw [slashed]
    simp [Step.names, Step.name?]

theorem condensed_joined : Step.condensed (path.joined name).steps =
    (path.joined name).names.map Step.ofName := by
  obtain ⟨lead, -, joined⟩ := path.steps_joined filled name proper
  rw [← moving_steps, joined, Step.condensed_append _ _ rfl]
  simp [Step.moving, Step.condensed, Step.idle]

end Path

end RouteMigration
