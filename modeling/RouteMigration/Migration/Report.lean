import RouteMigration.Migration.FileError
import RouteMigration.Route.Eligibility

set_option autoImplicit false

namespace RouteMigration

inductive Outcome where
  -- Flagged when the new text calls the helper without importing it.
  | updated (missingImport : Bool)
  | skipped (reason : SkipReason)
  | errored (error : FileError)
  deriving DecidableEq

def Outcome.describe : Outcome → Text
  | .updated _ => "Updated".toList
  | .skipped reason => reason.describe
  | .errored error =>
    "Error: ".toList ++ error.message ++ " (".toList ++ error.kind.describe ++ ")".toList

structure Entry where
  path : Path
  displayPath : Path
  outcome : Outcome
  deriving DecidableEq

structure Report where
  root : Path
  dryRun : Bool
  discovered : Nat := 0
  updated : Nat := 0
  skipped : Nat := 0
  errored : Nat := 0
  entries : List Entry := []
  deriving DecidableEq

namespace Report

def record (report : Report) (entry : Entry) : Report :=
  let listed := { report with entries := report.entries ++ [entry] }
  match entry.outcome with
  | .updated _ => { listed with updated := listed.updated + 1 }
  | .skipped _ => { listed with skipped := listed.skipped + 1 }
  | .errored _ => { listed with errored := listed.errored + 1 }

def processed (report : Report) : Nat :=
  report.updated + report.skipped + report.errored

def missingImports (report : Report) : List Entry :=
  report.entries.filter fun entry => entry.outcome = .updated true

theorem record_entries (report : Report) (entry : Entry) :
    (report.record entry).entries = report.entries ++ [entry] := by
  unfold record
  cases entry.outcome <;> rfl

end Report

end RouteMigration
