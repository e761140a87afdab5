import RouteMigration.Proofs.Disk.CanonicalPlace

set_option autoImplicit false

namespace RouteMigration

/-- The names of a path, with `..` as the name that it is written as. -/
def Path.names (path : Path) : Location :=
  (path.opening.2.filterMap Component.ofPart?).map Component.part

def Step.name? : Step → Option Name
  | .child name => some name
  | .up => some upName
  | .here | .asDirectory => none

def Step.names (steps : List Step) : Location :=
  steps.filterMap Step.name?

theorem Step.name?_ofName (part : Name) (filled : part ≠ []) :
    (Step.ofName part).name? = (Component.ofPart? part).map Component.part := by
  by_cases here : part = hereName
  · subst here
    rfl
  by_cases up : part = upName
  · subst up
    rfl
  simp [Step.ofName, Component.ofPart?, here, up, filled, Step.name?, Component.part]

theorem Step.names_ofParts (parts : List Name) :
    Step.names (Step.ofParts parts) = (parts.filterMap Component.ofPart?).map Component.part := by
  induction parts with
  | nil => rfl
  | cons part later ih =>
    by_cases void : part = []
    · subst void
      cases later with
      | nil => rfl
      | cons next later => exact ih
    have first := Step.name?_ofName part void
    cases later with
    | nil =>
      simp only [Step.ofParts, void, if_false, Step.names, List.filterMap_cons, first]
      cases Component.ofPart? part <;> rfl
    | cons next later =>
      simp only [Step.ofParts, void, if_false, Step.names, List.filterMap_cons, first] at ih ⊢
      cases Component.ofPart? part with
      | none => exact ih
      | some component => simpa using ih

theorem Step.up_of_mem_ofParts (parts : List Name) (member : Step.up ∈ Step.ofParts parts) :
    Component.up ∈ parts.filterMap Component.ofPart? := by
  have written (part : Name) (ascends : Step.ofName part = .up) :
      Component.ofPart? part = some .up := by
    unfold Step.ofName at ascends
    split at ascends
    next => cases ascends
    next here =>
      split at ascends
      next up => subst up; rfl
      next => cases ascends
  induction parts with
  | nil => simp [Step.ofParts] at member
  | cons part later ih =>
    by_cases void : part = []
    · subst void
      cases later with
      | nil => simp [Step.ofParts] at member
      | cons next later => exact ih member
    cases later with
    | nil =>
      simp only [Step.ofParts, void, if_false, List.mem_singleton] at member
      simp [written part member.symm]
    | cons next later =>
      simp only [Step.ofParts, void, if_false, List.mem_cons] at member
      rcases member with first | rest
      · simp [written part first.symm]
      · rw [List.filterMap_cons]
        split
        · exact ih rest
        · exact List.mem_cons_of_mem _ (ih rest)

theorem split_cons_self {A : Type} [DecidableEq A] (mark : A) (rest : List A) :
    split mark (mark :: rest) = [] :: split mark rest := by
  simp [split]

theorem Path.exists_octets_of_isAbsolute (path : Path) (absolute : path.isAbsolute = true) :
    ∃ rest, path.octets = slash :: rest := by
  simp only [isAbsolute, beq_iff_eq] at absolute
  exact List.head?_eq_some_iff.mp absolute

theorem Path.filterMap_opening (path : Path) :
    (split slash path.octets).filterMap Component.ofPart? =
      path.opening.2.filterMap Component.ofPart? := by
  unfold opening
  split
  next none => rw [none]
  next first later parts =>
    split
    next absolute =>
      obtain ⟨rest, octets⟩ := path.exists_octets_of_isAbsolute absolute
      rw [octets, split_cons_self] at parts
      cases parts
      rw [octets, split_cons_self]
      rfl
    next =>
      split
      next here =>
        subst here
        rw [parts]
        rfl
      next => rw [parts]

theorem Path.names_steps (path : Path) : Step.names path.steps = path.names := by
  rw [steps, Step.names_ofParts, path.filterMap_opening, names]

theorem Path.up_of_mem_steps (path : Path) (member : Step.up ∈ path.steps) :
    Component.up ∈ path.components := by
  have ascends := Step.up_of_mem_ofParts _ member
  rw [path.filterMap_opening] at ascends
  exact List.mem_append_right _ ascends

namespace Disk

def lexicalPlace (disk : Disk) (path : Path) : Location :=
  disk.startOf path ++ path.names

theorem absolute_eq_lexicalPlace (disk : Disk) (path : Path) :
    path.absolute disk.workingDirectory = (disk.lexicalPlace path).path := by
  simp only [Path.absolute, lexicalPlace, startOf, Path.names]
  cases path.isAbsolute <;> rfl

def LinkOnWay (disk : Disk) (path : Path) : Prop :=
  ∃ way target, way <+: path.names ∧ disk.item? (disk.startOf path ++ way) = some (.link target)

theorem advance_plain (disk : Disk) (followLast : Bool) (place : Location) (steps : List Step)
    (level : Step.up ∉ steps)
    (unlinked : ∀ way target, way <+: Step.names steps →
      disk.item? (place ++ way) ≠ some (.link target))
    (stop : Stop) (advanced : disk.advance followLast place steps = .ok stop) :
    stop = .arrived (place ++ Step.names steps) := by
  induction steps generalizing place with
  | nil =>
    simp only [advance, Except.ok.injEq] at advanced
    simp [← advanced, Step.names]
  | cons step later ih =>
    simp only [List.mem_cons, not_or] at level
    unfold advance at advanced
    split at advanced
    next => cases advanced
    next => cases advanced
    next => cases advanced
    next mode standing =>
      cases step with
      | up => exact absurd rfl level.1
      | asDirectory => exact ih place level.2 unlinked advanced
      | here =>
        simp only at advanced
        split at advanced
        next => exact ih place level.2 unlinked advanced
        next => cases advanced
      | child name =>
        simp only at advanced
        split at advanced
        next => cases advanced
        next =>
          have unlinkedLater : ∀ way target, way <+: Step.names later →
              disk.item? (place ++ [name] ++ way) ≠ some (.link target) := by
            intro way target onWay
            rw [List.append_assoc]
            exact unlinked (name :: way) target ((List.prefix_cons_inj name).mpr onWay)
          split at advanced
          next => cases advanced
          next target link =>
            have first : [name] <+: Step.names (.child name :: later) := ⟨Step.names later, rfl⟩
            exact absurd link (unlinked [name] target first)
          next =>
            rw [ih (place ++ [name]) level.2 unlinkedLater advanced, List.append_assoc]
            rfl

theorem resolve_plain (disk : Disk) (followLast : Bool) (place : Location) (steps : List Step)
    (level : Step.up ∉ steps)
    (unlinked : ∀ way target, way <+: Step.names steps →
      disk.item? (place ++ way) ≠ some (.link target))
    (reached : Location) (resolved : disk.resolve followLast place steps = .ok reached) :
    reached = place ++ Step.names steps := by
  unfold resolve throughLinks at resolved
  cases advanced : disk.advance followLast place steps with
  | error error => simp [advanced] at resolved
  | ok stop =>
    cases disk.advance_plain followLast place steps level unlinked stop advanced
    simp only [advanced, Except.ok.injEq] at resolved
    exact resolved.symm

theorem locate_plain (disk : Disk) (followLast : Bool) (path : Path) (place : Location)
    (level : Component.up ∉ path.components) (unlinked : ¬ disk.LinkOnWay path)
    (located : disk.locate followLast path = .ok place) : place = disk.lexicalPlace path := by
  obtain ⟨-, -, -, resolved⟩ := locate_eq_ok_iff.mp located
  rw [lexicalPlace, ← path.names_steps]
  refine disk.resolve_plain followLast _ path.steps ?_ ?_ place resolved
  · exact fun member => level (path.up_of_mem_steps member)
  · intro way target onWay link
    rw [path.names_steps] at onWay
    exact unlinked ⟨way, target, onWay, link⟩

end Disk

end RouteMigration
