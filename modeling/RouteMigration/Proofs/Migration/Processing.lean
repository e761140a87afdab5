import RouteMigration.Proofs.Disk.CanonicalPlace
import RouteMigration.Proofs.Migration.BoundedReading
import RouteMigration.Proofs.Migration.Outline

set_option autoImplicit false

namespace RouteMigration

inductive Plan where
  | leave (outcome : Outcome)
  | write (content : Text)

namespace Disk

def plan (disk : Disk) (config : Config) (path : Path) : Plan :=
  match disk.readBounded path config.maxFileSize with
  | .error error => .leave (.errored error)
  | .ok content =>
    match Route.exclusion? (disk.rulePath path) content with
    | some reason => .leave (.skipped reason)
    | none =>
      match Route.rewrite? content with
      | none => .leave (.skipped .noPatternMatched)
      | some result => .write result

def carryOut (disk : Disk) (config : Config) (path : Path) : Plan → Disk × Outcome
  | .leave outcome => (disk, outcome)
  | .write content =>
    if config.dryRun then (disk, .updated (Route.helperImportMissing content))
    else disk.writeRewritten path content

theorem processFile_eq_carryOut (disk : Disk) (config : Config) (path : Path) :
    disk.processFile config path = disk.carryOut config path (disk.plan config path) := by
  simp only [processFile, plan]
  cases disk.readBounded path config.maxFileSize with
  | error error => rfl
  | ok content =>
    simp only
    cases Route.exclusion? (disk.rulePath path) content with
    | some reason => rfl
    | none =>
      simp only
      cases Route.rewrite? content <;> rfl

structure Rewritable (disk : Disk) (config : Config) (path : Path) (content result : Text) :
    Prop where
  read : disk.readBounded path config.maxFileSize = .ok content
  eligible : Route.exclusion? (disk.rulePath path) content = none
  changed : Route.rewrite? content = some result

theorem plan_eq_write_iff (disk : Disk) (config : Config) (path : Path) (result : Text) :
    disk.plan config path = .write result ↔
      ∃ content, disk.Rewritable config path content result := by
  constructor
  · intro planned
    unfold plan at planned
    split at planned
    next => cases planned
    next content read =>
      split at planned
      next => cases planned
      next eligible =>
        split at planned
        next => cases planned
        next changed =>
          cases planned
          exact ⟨content, read, eligible, changed⟩
  · rintro ⟨content, read, eligible, changed⟩
    simp only [plan, read, eligible, changed]

theorem ne_updated_of_plan (disk : Disk) (config : Config) (path : Path) (outcome : Outcome)
    (planned : disk.plan config path = .leave outcome) (missing : Bool) :
    outcome ≠ .updated missing := by
  unfold plan at planned
  split at planned
  next => cases planned; simp
  next =>
    split at planned
    next => cases planned; simp
    next =>
      split at planned
      next => cases planned; simp
      next => cases planned

theorem Rewritable.standing {disk : Disk} {config : Config} {path : Path} {content result : Text}
    (rewritable : disk.Rewritable config path content result) :
    ∃ place mode data, disk.status path = .ok (place, .file mode data) ∧ mode.readable = true ∧
      boundedText path config.maxFileSize data = .ok content :=
  (disk.readBounded_eq_ok_iff path config.maxFileSize content).mp rewritable.read

theorem processFile_cases (disk : Disk) (config : Config) (path : Path) :
    (∃ outcome, disk.processFile config path = (disk, outcome) ∧
      ∀ missing, outcome ≠ .updated missing) ∨
    ∃ place mode data content result,
      disk.status path = .ok (place, .file mode data) ∧
      disk.Rewritable config path content result ∧
      (config.dryRun = false → mode.writable = true) ∧
      disk.processFile config path =
        (if config.dryRun then disk else disk.setData place (Utf8.encode result),
          .updated (Route.helperImportMissing result)) := by
  rw [processFile_eq_carryOut]
  cases planned : disk.plan config path with
  | leave outcome =>
    exact .inl ⟨outcome, rfl, disk.ne_updated_of_plan config path outcome planned⟩
  | write result =>
    obtain ⟨content, rewritable⟩ := (disk.plan_eq_write_iff config path result).mp planned
    obtain ⟨place, mode, data, standing, -, -⟩ := rewritable.standing
    cases dry : config.dryRun with
    | true =>
      refine .inr ⟨place, mode, data, content, result, standing, rewritable, by simp, ?_⟩
      simp [carryOut, dry]
    | false =>
      cases permitted : mode.writable with
      | true =>
        refine .inr
          ⟨place, mode, data, content, result, standing, rewritable, fun _ => permitted, ?_⟩
        simp [carryOut, dry, writeRewritten, overwrite, standing, permitted]
      | false =>
        refine .inl ⟨.errored (unwrittenFailure path .permissionDenied), ?_, by simp⟩
        simp [carryOut, dry, writeRewritten, overwrite, standing, permitted]

theorem outline_processFile (disk : Disk) (config : Config) (path : Path) :
    (disk.processFile config path).1.outline = disk.outline := by
  rcases disk.processFile_cases config path with
    ⟨outcome, left, -⟩ | ⟨place, mode, data, content, result, -, -, -, done⟩
  · rw [left]
  · rw [done]
    cases config.dryRun <;> simp [outline_setData]

theorem processFile_dry (disk : Disk) (config : Config) (dry : config.dryRun = true) (path : Path) :
    (disk.processFile config path).1 = disk := by
  rcases disk.processFile_cases config path with
    ⟨outcome, left, -⟩ | ⟨place, mode, data, content, result, -, -, -, done⟩
  · rw [left]
  · simp [done, dry]

theorem item?_processFile (disk : Disk) (config : Config) (path : Path) (place : Location)
    (elsewhere : (∃ missing, (disk.processFile config path).2 = .updated missing) →
      disk.locate true path ≠ .ok place) :
    (disk.processFile config path).1.item? place = disk.item? place := by
  rcases disk.processFile_cases config path with
    ⟨outcome, left, -⟩ | ⟨written, mode, data, content, result, standing, -, -, done⟩
  · rw [left]
  · have apart : place ≠ written := by
      rintro rfl
      exact elsewhere ⟨_, by rw [done]⟩ (locate_of_status standing).1
    rw [done]
    cases config.dryRun <;> simp [item?_setData, apart]

variable {first second : Disk}

theorem locate_congr (same : first.outline = second.outline) (followLast : Bool) (path : Path) :
    first.locate followLast path = second.locate followLast path :=
  (alike_of_outline same).locate followLast path

theorem standing_congr (same : first.outline = second.outline) (path : Path) (place : Location)
    (mode : Mode) (data : ByteArray) (standing : first.status path = .ok (place, .file mode data)) :
    ∃ other, second.status path = .ok (place, .file mode other) := by
  have outlines := status_congr same path
  rw [standing] at outlines
  cases found : second.status path with
  | error cause => simp [found, Except.map] at outlines
  | ok reached =>
    obtain ⟨reachedPlace, item⟩ := reached
    cases item <;> simp [found, Except.map, Item.outline, Item.withData] at outlines
    obtain ⟨rfl, rfl⟩ := outlines
    exact ⟨_, rfl⟩

theorem Alike.status (alike : first.Alike second) (path : Path)
    (held : ∀ place, first.locate true path = .ok place → first.item? place = second.item? place) :
    first.status path = second.status path := by
  simp only [Disk.status, ← alike.locate]
  cases located : first.locate true path with
  | error cause => rfl
  | ok place => simp only [held place located]

theorem Alike.plan (alike : first.Alike second) (config : Config) (path : Path)
    (held : ∀ place, first.locate true path = .ok place → first.item? place = second.item? place) :
    first.plan config path = second.plan config path := by
  have standing := alike.status path held
  simp only [Disk.plan, readBounded, openForReading, standing, alike.rulePath]

theorem carryOut_congr (config : Config) (path : Path) (plan : Plan)
    (standing : first.status path = second.status path) :
    (first.carryOut config path plan).2 = (second.carryOut config path plan).2 ∧
      ∀ place, first.item? place = second.item? place →
        (first.carryOut config path plan).1.item? place =
          (second.carryOut config path plan).1.item? place := by
  cases plan with
  | leave outcome => exact ⟨rfl, fun _ equal => equal⟩
  | write content =>
    simp only [carryOut, writeRewritten, overwrite, standing]
    cases config.dryRun with
    | true => exact ⟨rfl, fun _ equal => equal⟩
    | false =>
      cases second.status path with
      | error cause => exact ⟨rfl, fun _ equal => equal⟩
      | ok found =>
        obtain ⟨place, item⟩ := found
        cases item with
        | directory mode => exact ⟨rfl, fun _ equal => equal⟩
        | link target => exact ⟨rfl, fun _ equal => equal⟩
        | file mode data =>
          cases permitted : mode.writable with
          | false => simp [permitted]
          | true =>
            simp only [permitted, if_true, Bool.false_eq_true, if_false, true_and]
            intro other equal
            rw [item?_setData, item?_setData, equal]

theorem Alike.processFile (alike : first.Alike second) (config : Config) (path : Path)
    (held : ∀ place, first.locate true path = .ok place → first.item? place = second.item? place) :
    (first.processFile config path).2 = (second.processFile config path).2 := by
  rw [processFile_eq_carryOut, processFile_eq_carryOut, alike.plan config path held]
  exact (carryOut_congr config path _ (alike.status path held)).1

theorem Alike.item?_processFile (alike : first.Alike second) (config : Config) (path : Path)
    (held : ∀ place, first.locate true path = .ok place → first.item? place = second.item? place)
    (place : Location) (equal : first.item? place = second.item? place) :
    (first.processFile config path).1.item? place =
      (second.processFile config path).1.item? place := by
  rw [processFile_eq_carryOut, processFile_eq_carryOut, alike.plan config path held]
  exact (carryOut_congr config path _ (alike.status path held)).2 place equal

theorem processFile_congr (same : first.outline = second.outline) (config : Config) (path : Path)
    (held : ∀ place, first.locate true path = .ok place → first.item? place = second.item? place) :
    (first.processFile config path).2 = (second.processFile config path).2 :=
  (alike_of_outline same).processFile config path held

theorem item?_processFile_congr (same : first.outline = second.outline) (config : Config)
    (path : Path)
    (held : ∀ place, first.locate true path = .ok place → first.item? place = second.item? place)
    (place : Location) (equal : first.item? place = second.item? place) :
    (first.processFile config path).1.item? place =
      (second.processFile config path).1.item? place :=
  (alike_of_outline same).item?_processFile config path held place equal

end Disk

end RouteMigration
