import RouteMigration.Migration.Report

set_option autoImplicit false

namespace RouteMigration

def ruleLine : Text :=
  List.replicate 60 '='

def Outcome.lines (outcome : Outcome) : List Text :=
  match outcome with
  | .updated missingImport =>
    "   ✓ Updated".toList ::
      if missingImport then
        ["   ! No import line found; add the buildBFFHeaders import by hand".toList]
      else []
  | .skipped reason => ["   - ".toList ++ reason.describe]
  | .errored _ => ["   ✗ ".toList ++ outcome.describe]

def Entry.lines (entry : Entry) : List Text :=
  ("> ".toList ++ entry.displayPath.shown) :: entry.outcome.lines

def countLine (label : Text) (count : Nat) : Text :=
  "   ".toList ++ label ++ ": ".toList ++ Text.ofNat count ++ " routes".toList

namespace Report

def headLines (report : Report) : List Text :=
  ["BFF Routes Updater for Subdomain Support".toList, ruleLine] ++
    (if report.dryRun then ["DRY RUN MODE - No files will be modified".toList, ruleLine] else []) ++
    [[], "Found ".toList ++ Text.ofNat report.discovered ++ " route files".toList, []]

def summaryLines (report : Report) : List Text :=
  [[], ruleLine, "Summary:".toList, countLine "Updated".toList report.updated,
    countLine "Skipped".toList report.skipped, countLine "Errors".toList report.errored, ruleLine]

def lines (report : Report) : List Text :=
  report.headLines ++ report.entries.flatMap Entry.lines ++ report.summaryLines

def operatorText (report : Report) : Text :=
  report.lines.flatMap fun line => line ++ ['\n']

end Report

end RouteMigration
