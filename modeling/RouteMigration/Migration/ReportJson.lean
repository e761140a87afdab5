import RouteMigration.Json.Basic
import RouteMigration.Migration.Report

set_option autoImplicit false

namespace RouteMigration

def Path.toJson? (path : Path) : Option Json :=
  path.text?.map Json.text

def FileError.toJson? (error : FileError) : Option Json :=
  error.file.toJson?.map fun file =>
    .object
      [("file".toList, file), ("kind".toList, .text error.kind.keyword),
        ("message".toList, .text error.message)]

def Outcome.members? : Outcome → Option (List (Text × Json))
  | .updated missingImport =>
    some
      [("outcome".toList, .text "updated".toList),
        ("missing_import".toList, .boolean missingImport)]
  | .skipped reason =>
    some
      [("outcome".toList, .text "skipped".toList), ("reason".toList, .text reason.keyword)]
  | .errored error =>
    error.toJson?.map fun failure =>
      [("outcome".toList, .text "errored".toList), ("error".toList, failure)]

def Outcome.toJson? (outcome : Outcome) : Option Json :=
  outcome.members?.map Json.object

def Entry.toJson? (entry : Entry) : Option Json :=
  match entry.path.toJson?, entry.displayPath.toJson?, entry.outcome.members? with
  | some path, some displayPath, some members =>
    some (.object (("path".toList, path) :: ("display_path".toList, displayPath) :: members))
  | _, _, _ => none

def Entry.listToJson? : List Entry → Option (List Json)
  | [] => some []
  | entry :: later =>
    match entry.toJson?, Entry.listToJson? later with
    | some first, some rest => some (first :: rest)
    | _, _ => none

namespace Report

def toJson? (report : Report) : Option Json :=
  match report.root.toJson?, Entry.listToJson? report.entries with
  | some root, some entries =>
    some (.object
      [("root".toList, root), ("dry_run".toList, .boolean report.dryRun),
        ("discovered".toList, .number report.discovered),
        ("updated".toList, .number report.updated), ("skipped".toList, .number report.skipped),
        ("errored".toList, .number report.errored), ("files".toList, .list entries)])
  | _, _ => none

def jsonText? (report : Report) : Option Text :=
  report.toJson?.map fun json => json.pretty 0 ++ ['\n']

end Report

def unwritablePathMessage : Text :=
  "path contains invalid UTF-8 characters".toList

end RouteMigration
