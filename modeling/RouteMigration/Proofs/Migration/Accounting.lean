import RouteMigration.Proofs.Migration.Effect
import RouteMigration.Proofs.Path.Ordering

set_option autoImplicit false

namespace RouteMigration

inductive Bucket where
  | updated
  | skipped
  | errored
  deriving DecidableEq

def Outcome.bucket : Outcome → Bucket
  | .updated _ => .updated
  | .skipped _ => .skipped
  | .errored _ => .errored

namespace Report

def counter (report : Report) : Bucket → Nat
  | .updated => report.updated
  | .skipped => report.skipped
  | .errored => report.errored

def Exact (report : Report) : Prop :=
  ∀ bucket, report.counter bucket =
    report.entries.countP fun entry => entry.outcome.bucket = bucket

theorem counter_record (report : Report) (entry : Entry) (bucket : Bucket) :
    (report.record entry).counter bucket =
      report.counter bucket + if entry.outcome.bucket = bucket then 1 else 0 := by
  unfold record
  cases entry.outcome <;> cases bucket <;> rfl

theorem Exact.record {report : Report} (exact_ : report.Exact) (entry : Entry) :
    (report.record entry).Exact := by
  intro bucket
  rw [counter_record, record_entries, List.countP_append, exact_ bucket, List.countP_singleton]
  simp only [decide_eq_true_eq]

theorem Exact.foldl_record {report : Report} (exact_ : report.Exact) (entries : List Entry) :
    (entries.foldl Report.record report).Exact := by
  induction entries generalizing report with
  | nil => exact exact_
  | cons entry later ih => exact ih (exact_.record entry)

theorem countP_buckets (entries : List Entry) :
    (entries.countP fun entry => entry.outcome.bucket = .updated) +
      (entries.countP fun entry => entry.outcome.bucket = .skipped) +
      (entries.countP fun entry => entry.outcome.bucket = .errored) = entries.length := by
  induction entries with
  | nil => rfl
  | cons entry later ih =>
    simp only [List.countP_cons, List.length_cons, decide_eq_true_eq]
    cases entry.outcome.bucket <;> simp only [reduceCtorEq, if_true, if_false] <;> omega

theorem Exact.processed_eq {report : Report} (exact_ : report.Exact) :
    report.processed = report.entries.length := by
  rw [← countP_buckets, ← exact_ .updated, ← exact_ .skipped, ← exact_ .errored]
  rfl

theorem exact_new (root : Path) (dryRun : Bool) (discovered : Nat) :
    Exact { root, dryRun, discovered } := by
  intro bucket
  cases bucket <;> rfl

end Report

structure Turn where
  disk : Disk
  path : Path

namespace Turn

variable (config : Config) (turn : Turn)

def outcome : Outcome :=
  (turn.disk.processFile config turn.path).2

def entry : Entry :=
  config.entryFor turn.path (turn.outcome config)

def rewritten? : Option Text :=
  match turn.disk.plan config turn.path with
  | .write result => some result
  | .leave _ => none

theorem rewritten?_eq_some_iff (result : Text) : turn.rewritten? config = some result ↔
    ∃ content, turn.disk.Rewritable config turn.path content result := by
  rw [← Disk.plan_eq_write_iff, rewritten?]
  cases turn.disk.plan config turn.path <;> simp

def leavesUnimported : Bool :=
  (turn.outcome config).bucket = .updated &&
    (turn.rewritten? config).any Route.helperImportMissing

theorem outcome_eq_updated_true_iff :
    turn.outcome config = .updated true ↔ turn.leavesUnimported config = true := by
  unfold leavesUnimported outcome
  rcases turn.disk.processFile_cases config turn.path with
    ⟨outcome, left, never⟩ | ⟨_, _, _, content, result, -, rewritable, -, done⟩
  · rw [left]
    cases outcome with
    | updated missing => exact absurd rfl (never missing)
    | skipped reason => simp [Outcome.bucket]
    | errored error => simp [Outcome.bucket]
  · have rewritten := (turn.rewritten?_eq_some_iff config result).mpr ⟨content, rewritable⟩
    simp [done, rewritten, Outcome.bucket]

end Turn

namespace Disk

variable (config : Config)

def turns : Disk → List Path → List Turn
  | _, [] => []
  | disk, path :: later => { disk, path } :: turns (disk.processFile config path).1 later

theorem paths_turns (disk : Disk) (files : List Path) :
    (disk.turns config files).map Turn.path = files := by
  induction files generalizing disk with
  | nil => rfl
  | cons path later ih => simp [turns, ih]

theorem entries_processAll (disk : Disk) (files : List Path) :
    (disk.processAll config files).2 = (disk.turns config files).map (Turn.entry config) := by
  induction files generalizing disk with
  | nil => rfl
  | cons path later ih =>
    simp only [processAll, turns, ih, List.map_cons]
    rfl

theorem missingImports_completed (disk : Disk) (patterns : List Glob.Pattern) :
    (disk.completed config patterns).report.missingImports =
      ((disk.turns config (disk.discover config patterns).files).filter
        (Turn.leavesUnimported config)).map (Turn.entry config) := by
  have failures : (disk.discoveryEntries config patterns).filter
      (fun entry => entry.outcome = .updated true) = [] := by
    simp [discoveryEntries, Config.entryFor]
  rw [Report.missingImports, entries_completed, List.filter_append, failures, List.nil_append,
    entries_processAll, List.filter_map]
  congr 1
  apply List.filter_congr
  intro turn _
  rw [Bool.eq_iff_iff, ← turn.outcome_eq_updated_true_iff]
  exact decide_eq_true_iff

theorem report_accounts (disk : Disk) :
    (∀ patterns, config.validate disk = .ok patterns →
      ∃ progress, disk.migrate config = .ok progress ∧
        progress.report.entries = disk.discoveryEntries config patterns ++
          (disk.turns config (disk.discover config patterns).files).map (Turn.entry config) ∧
        (disk.turns config (disk.discover config patterns).files).map Turn.path =
          (disk.discover config patterns).files ∧
        Path.Increasing (disk.discover config patterns).files ∧
        progress.report.discovered = (disk.discover config patterns).files.length ∧
        progress.report.Exact ∧
        progress.report.processed = progress.report.entries.length ∧
        progress.report.entries.length =
          progress.report.discovered + (disk.discover config patterns).errors.length ∧
        progress.report.missingImports =
          ((disk.turns config (disk.discover config patterns).files).filter
            (Turn.leavesUnimported config)).map (Turn.entry config)) ∧
    ∀ (root : Path) (dryRun : Bool) (entries : List Entry),
      (entries.foldl Report.record { root, dryRun }).Exact ∧
        (entries.foldl Report.record { root, dryRun }).entries = entries ∧
        (entries.foldl Report.record { root, dryRun }).processed = entries.length := by
  constructor
  · intro patterns valid
    have discovered : (disk.completed config patterns).report.discovered =
        (disk.discover config patterns).files.length := Report.discovered_foldl_record _ _
    have exact_ : (disk.completed config patterns).report.Exact :=
      (Report.exact_new _ _ _).foldl_record _
    refine ⟨_, disk.migrate_eq_completed config patterns valid, ?_, paths_turns config disk _,
      disk.increasing_discover config patterns, discovered, exact_, exact_.processed_eq, ?_,
      missingImports_completed config disk patterns⟩
    · rw [entries_completed, entries_processAll]
    · rw [length_completed, discovered, Nat.add_comm]
  · intro root dryRun entries
    have exact_ : (entries.foldl Report.record { root, dryRun }).Exact :=
      (Report.exact_new _ _ _).foldl_record entries
    have recorded : (entries.foldl Report.record { root, dryRun }).entries = entries :=
      Report.entries_foldl_record _ entries
    exact ⟨exact_, recorded, by rw [exact_.processed_eq, recorded]⟩

def assorted : Disk where
  items :=
    [([], .directory {}), (placeOf ["api"], .directory {}),
      (placeOf ["api", "closed"], .directory { readable := false }),
      (placeOf ["api", "auth"], .directory {}),
      (placeOf ["api", "auth", "route.ts"], .file {} (Utf8.encode "import x\nfetch(u)".toList)),
      (placeOf ["api", "users"], .directory {}),
      (placeOf ["api", "users", "route.ts"], .file {} (Utf8.encode
        "fetch(u, \x7b headers: \x7b 'Content-Type': 'application/json' \x7d \x7d)".toList))]
  workingDirectory := []

theorem report_accounts_assorted :
    Config.validate { root := Path.ofText "api".toList } assorted = .ok [] ∧
    ∃ progress, assorted.migrate { root := Path.ofText "api".toList } = .ok progress ∧
      progress.report.processed = 3 ∧ progress.report.discovered = 2 ∧ progress.report.Exact ∧
      progress.report.missingImports.map (fun entry => entry.path) =
        [Path.ofText "api/users/route.ts".toList] := by
  have valid : Config.validate { root := Path.ofText "api".toList } assorted = .ok [] := by rfl
  obtain ⟨progress, ran, entries, -, -, discovered, exact_, processed, length, missing⟩ :=
    (report_accounts { root := Path.ofText "api".toList } assorted).1 [] valid
  refine ⟨valid, progress, ran, ?_, ?_, exact_, ?_⟩
  · rw [processed, length, discovered]
    decide +kernel
  · rw [discovered]
    decide +kernel
  · rw [missing]
    decide +kernel

end Disk

end RouteMigration
