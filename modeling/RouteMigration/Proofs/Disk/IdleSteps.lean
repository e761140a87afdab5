import RouteMigration.Proofs.Disk.Tree

set_option autoImplicit false

namespace RouteMigration

def Step.idle : Step → Bool
  | .here | .asDirectory => true
  | .child _ | .up => false

namespace Step

def moves (steps : List Step) : Bool :=
  steps.any fun step => !step.idle

def moving (steps : List Step) : List Step :=
  steps.filter fun step => !step.idle

/-- Steps without such idle ones as a moving one follows. -/
def condensed : List Step → List Step
  | [] => []
  | step :: later =>
    if step.idle && moves later then condensed later else step :: condensed later

theorem condensed_append (steps more : List Step) (onward : moves more = true) :
    condensed (steps ++ more) = moving steps ++ condensed more := by
  induction steps with
  | nil => rfl
  | cons step later ih =>
    have further : moves (later ++ more) = true := by
      rw [moves] at onward ⊢
      simp [onward]
    cases idle : step.idle <;> simp [condensed, moving, idle, further, ih]

theorem condensed_of_still (steps : List Step) (still : moves steps = false) :
    condensed steps = steps := by
  induction steps with
  | nil => rfl
  | cons step later ih =>
    have stillLater : moves later = false := by
      simp only [moves, List.any_cons, Bool.or_eq_false_iff] at still
      exact still.2
    simp [condensed, stillLater, ih stillLater]

theorem exists_condensed_eq (steps : List Step) : ∃ still,
    moves still = false ∧ condensed steps = moving steps ++ still := by
  induction steps with
  | nil => exact ⟨[], rfl, rfl⟩
  | cons step later ih =>
    obtain ⟨still, rest, condensedLater⟩ := ih
    cases idle : step.idle with
    | false => exact ⟨still, rest, by simp [condensed, moving, idle, condensedLater]⟩
    | true =>
      cases onward : moves later with
      | true => exact ⟨still, rest, by simp [condensed, moving, idle, onward, condensedLater]⟩
      | false =>
        refine ⟨step :: later, by simpa [moves, idle] using onward, ?_⟩
        have none : moving (step :: later) = [] := by
          simpa [moves, moving, idle] using onward
        rw [none]
        simp [condensed, onward, condensed_of_still later onward]

theorem moves_condensed (steps : List Step) : moves (condensed steps) = moves steps := by
  induction steps with
  | nil => rfl
  | cons step later ih =>
    unfold condensed
    split
    next dropped =>
      rw [Bool.and_eq_true] at dropped
      rw [ih, dropped.2, moves, List.any_cons, dropped.1]
      exact dropped.2.symm
    next => exact congrArg (!step.idle || ·) ih

theorem condensed_condensed (steps : List Step) :
    condensed (condensed steps) = condensed steps := by
  induction steps with
  | nil => rfl
  | cons step later ih =>
    cases dropped : step.idle && moves later with
    | true => simp [condensed, dropped, ih]
    | false => simp [condensed, dropped, moves_condensed, ih]

theorem condensed_append_condensed (steps more : List Step) :
    condensed (steps ++ condensed more) = condensed (steps ++ more) := by
  cases onward : moves more with
  | true =>
    rw [condensed_append steps more onward,
      condensed_append steps _ (by rw [moves_condensed, onward]), condensed_condensed]
  | false => rw [condensed_of_still more onward]

theorem condensed_eq_nil_iff (steps : List Step) : condensed steps = [] ↔ steps = [] := by
  induction steps with
  | nil => simp [condensed]
  | cons step later ih =>
    cases dropped : step.idle && moves later with
    | false => simp [condensed, dropped]
    | true =>
      simp only [Bool.and_eq_true] at dropped
      have nonempty : later ≠ [] := by
        rintro rfl
        simp [moves] at dropped
      simp [condensed, dropped, ih, nonempty]

end Step

def Stop.condensed : Stop → Stop
  | .arrived place => .arrived place
  | .link directory target later => .link directory target (Step.condensed later)

namespace Disk

variable (disk : Disk)

theorem advance_unsearchable (followLast : Bool) (place : Location) (mode : Mode)
    (standing : disk.item? place = some (.directory mode)) (closed : mode.searchable = false)
    (steps : List Step) (onward : Step.moves steps = true) :
    disk.advance followLast place steps = .error .permissionDenied := by
  induction steps with
  | nil => simp [Step.moves] at onward
  | cons step later ih =>
    cases step with
    | asDirectory =>
      have further : Step.moves later = true := by simpa [Step.moves, Step.idle] using onward
      simpa [advance, standing] using ih further
    | here | up | child name => simp [advance, standing, closed]

theorem advance_idle (followLast : Bool) (place : Location) (step : Step) (later : List Step)
    (idle : step.idle = true) (onward : Step.moves later = true) :
    disk.advance followLast place (step :: later) = disk.advance followLast place later := by
  obtain ⟨next, others, rfl⟩ : ∃ next others, later = next :: others :=
    List.exists_cons_of_ne_nil (by rintro rfl; simp [Step.moves] at onward)
  cases standing : disk.item? place with
  | none => simp [advance, standing]
  | some item =>
    cases item with
    | file _ _ | link _ => simp [advance, standing]
    | directory mode =>
      cases step with
      | child name | up => simp [Step.idle] at idle
      | asDirectory => rw [advance, standing]
      | here =>
        cases searchable : mode.searchable with
        | true => rw [advance, standing]; simp [searchable]
        | false =>
          rw [disk.advance_unsearchable followLast place mode standing searchable _ onward]
          simp [advance, standing, searchable]

theorem advance_condensed (followLast : Bool) (place : Location) (steps : List Step) :
    disk.advance followLast place (Step.condensed steps) =
      (disk.advance followLast place steps).map Stop.condensed := by
  induction steps generalizing place with
  | nil => rfl
  | cons step later ih =>
    unfold Step.condensed
    split
    next dropped =>
      rw [Bool.and_eq_true] at dropped
      rw [ih, disk.advance_idle followLast place step later dropped.1 dropped.2]
    next =>
      simp only [advance]
      cases disk.item? place with
      | none => rfl
      | some item =>
        cases item with
        | file _ _ | link _ => rfl
        | directory mode =>
          cases step with
          | asDirectory => exact ih place
          | here | up =>
            cases searchable : mode.searchable <;> simp [searchable, ih, Except.map]
          | child name =>
            cases searchable : mode.searchable with
            | false => simp [searchable, Except.map]
            | true =>
              cases held : disk.item? (place ++ [name]) with
              | none => simp [searchable, held, Except.map]
              | some item =>
                cases item with
                | file _ _ | directory _ => simpa [searchable, held] using ih (place ++ [name])
                | link target =>
                  by_cases last : later = [] ∧ followLast = false
                  · simp [searchable, held, last, Step.condensed, Except.map, Stop.condensed]
                  · simp [searchable, held, last, Step.condensed_eq_nil_iff, Except.map,
                      Stop.condensed]

theorem climb_condensed (place : Location) (steps : List Step) :
    disk.climb place (Step.condensed steps) = (disk.climb place steps).map Stop.condensed := by
  induction steps generalizing place with
  | nil => rfl
  | cons step later ih =>
    unfold Step.condensed
    split
    next dropped =>
      cases step with
      | child name | up => simp [Step.idle] at dropped
      | here | asDirectory => simpa [climb] using ih place
    next =>
      cases step with
      | up => exact ih place.dropLast
      | here | asDirectory => simpa [climb] using ih place
      | child name =>
        simp only [climb]
        cases disk.lookUp (place ++ [name]) with
        | error cause => rfl
        | ok item =>
          cases item with
          | link target => rfl
          | directory mode => exact ih (place ++ [name])
          | file mode data =>
            by_cases last : later = []
            · simp [last, Step.condensed, Except.map, Stop.condensed]
            · simp [last, Step.condensed_eq_nil_iff, Except.map]

end Disk

theorem throughLinks_condensed {travel : Location → List Step → Except AccessError Stop}
    (condenses : ∀ place steps,
      travel place (Step.condensed steps) = (travel place steps).map Stop.condensed)
    (links : Nat) (place : Location) (steps : List Step) :
    throughLinks travel links place (Step.condensed steps) =
      throughLinks travel links place steps := by
  induction links generalizing place steps with
  | zero =>
    unfold throughLinks
    rw [condenses]
    cases travel place steps with
    | error cause => rfl
    | ok stop => cases stop <;> rfl
  | succ links ih =>
    unfold throughLinks
    rw [condenses]
    cases travel place steps with
    | error cause => rfl
    | ok stop =>
      cases stop with
      | arrived last => rfl
      | link directory target later =>
        simp only [Except.map, Stop.condensed]
        rw [← ih _ (target.steps ++ Step.condensed later), Step.condensed_append_condensed, ih]

def Stop.before (more : List Step) : Stop → Stop
  | .arrived place => .arrived place
  | .link directory target later => .link directory target (later ++ more)

namespace Disk

variable (disk : Disk)

theorem advance_of_still (followLast : Bool) (place : Location) (still : List Step) (stop : Stop)
    (stays : Step.moves still = false)
    (advanced : disk.advance followLast place still = .ok stop) : stop = .arrived place := by
  induction still with
  | nil =>
    cases advanced
    rfl
  | cons step later ih =>
    simp only [Step.moves, List.any_cons, Bool.or_eq_false_iff] at stays
    unfold advance at advanced
    split at advanced
    next => cases advanced
    next => cases advanced
    next => cases advanced
    next mode standing =>
      cases step with
      | child name | up => simp [Step.idle] at stays
      | asDirectory => exact ih stays.2 advanced
      | here =>
        simp only at advanced
        split at advanced
        next => exact ih stays.2 advanced
        next => cases advanced

theorem throughLinks_of_still (links : Nat) (place reached : Location) (steps still : List Step)
    (stays : Step.moves still = false)
    (travelled : throughLinks (disk.advance true) links place (steps ++ still) = .ok reached) :
    throughLinks (disk.advance true) links place steps = .ok reached := by
  rcases disk.throughLinks_append links place steps with ⟨cause, fails⟩ | ⟨last, fewer, goes⟩
  · rw [fails] at travelled
    cases travelled
  · have ended : throughLinks (disk.advance true) links place steps = .ok last := by
      have whole := goes []
      rw [List.append_nil] at whole
      rw [whole, throughLinks, advance]
    rw [goes] at travelled
    rcases throughLinks_cases travelled with arrived | ⟨_, _, _, _, _, linked, -⟩
    · cases disk.advance_of_still true last still _ stays arrived
      exact ended
    · cases disk.advance_of_still true last still _ stays linked

theorem climb_of_still (place : Location) (still : List Step) (stays : Step.moves still = false) :
    disk.climb place still = .ok (.arrived place) := by
  induction still with
  | nil => rfl
  | cons step later ih =>
    simp only [Step.moves, List.any_cons, Bool.or_eq_false_iff] at stays
    cases step with
    | child name | up => simp [Step.idle] at stays
    | here | asDirectory => simpa [climb] using ih stays.2

theorem climb_append_still (place : Location) (steps still : List Step)
    (stays : Step.moves still = false) :
    disk.climb place (steps ++ still) = (disk.climb place steps).map (Stop.before still) ∨
      disk.climb place (steps ++ still) = .error .notDirectory ∧
        ∃ last mode data, disk.climb place steps = .ok (.arrived last) ∧
          disk.item? last = some (.file mode data) := by
  induction steps generalizing place with
  | nil =>
    left
    simp [climb, disk.climb_of_still place still stays, Except.map, Stop.before]
  | cons step later ih =>
    cases step with
    | up => exact ih place.dropLast
    | here | asDirectory => simpa [climb] using ih place
    | child name =>
      simp only [List.cons_append, climb]
      cases found : disk.lookUp (place ++ [name]) with
      | error cause => exact .inl rfl
      | ok item =>
        cases item with
        | link target => exact .inl rfl
        | directory mode => exact ih (place ++ [name])
        | file mode data =>
          by_cases last : later = []
          · subst last
            by_cases none : still = []
            · left
              simp [none, Except.map, Stop.before]
            · right
              refine ⟨by simp [none], _, mode, data, by simp, item?_of_lookUp found⟩
          · left
            simp [last, Except.map]

theorem throughLinks_append_still (links : Nat) (place reached : Location)
    (steps still : List Step) (stays : Step.moves still = false) (mode : Mode)
    (directory : disk.item? reached = some (.directory mode)) :
    throughLinks disk.climb links place (steps ++ still) = .ok reached ↔
      throughLinks disk.climb links place steps = .ok reached := by
  induction links using Nat.strongRecOn generalizing place steps with
  | _ links ih =>
    unfold throughLinks
    rcases disk.climb_append_still place steps still stays with
      same | ⟨fails, last, fileMode, data, arrived, file⟩
    · rw [same]
      cases disk.climb place steps with
      | error cause => simp [Except.map]
      | ok stop =>
        cases stop with
        | arrived last => simp [Except.map, Stop.before]
        | link directory target later =>
          simp only [Except.map, Stop.before]
          by_cases void : target.octets = []
          · simp [void]
          cases links with
          | zero => simp [void]
          | succ links =>
            simp only [void, if_false]
            rw [← List.append_assoc]
            exact ih links (Nat.lt_succ_self links) _ _
    · rw [fails, arrived]
      simp only [reduceCtorEq, false_iff, Except.ok.injEq]
      rintro rfl
      cases file.symm.trans directory

end Disk

end RouteMigration
