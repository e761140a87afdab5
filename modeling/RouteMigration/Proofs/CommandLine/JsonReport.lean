import RouteMigration.Proofs.CommandLine.ExitStatus
import RouteMigration.Proofs.Json.Reading
import RouteMigration.Proofs.Migration.BoundedReading

set_option autoImplicit false

namespace RouteMigration

namespace Json

def text? : Json → Option Text
  | .text value => some value
  | _ => none

def number? : Json → Option Nat
  | .number value => some value
  | _ => none

def boolean? : Json → Option Bool
  | .boolean value => some value
  | _ => none

def items? {A : Type} (reader : Json → Option A) : Json → Option (List A)
  | .list items => items.mapM reader
  | _ => none

def field? {A : Type} (key : String) (reader : Json → Option A) : Json → Option A
  | .object members => (members.lookup key.toList).bind reader
  | _ => none

end Json

def SkipReason.ofJson? (json : Json) : Option SkipReason :=
  json.text?.bind SkipReason.ofKeyword?

def FileErrorKind.ofJson? (json : Json) : Option FileErrorKind :=
  json.text?.bind FileErrorKind.ofKeyword?

def Path.ofJson? (json : Json) : Option Path :=
  json.text?.map Path.ofText

def FileError.ofJson? (json : Json) : Option FileError := do
  let file ← json.field? "file" Path.ofJson?
  let kind ← json.field? "kind" FileErrorKind.ofJson?
  let message ← json.field? "message" Json.text?
  return { file, kind, message }

def Outcome.ofJson? (json : Json) : Option Outcome := do
  let tag ← json.field? "outcome" Json.text?
  if tag = "updated".toList then
    (json.field? "missing_import" Json.boolean?).map .updated
  else if tag = "skipped".toList then (json.field? "reason" SkipReason.ofJson?).map .skipped
  else if tag = "errored".toList then (json.field? "error" FileError.ofJson?).map .errored
  else none

def Entry.ofJson? (json : Json) : Option Entry := do
  let path ← json.field? "path" Path.ofJson?
  let displayPath ← json.field? "display_path" Path.ofJson?
  let outcome ← Outcome.ofJson? json
  return { path, displayPath, outcome }

def Report.ofJson? (json : Json) : Option Report := do
  let root ← json.field? "root" Path.ofJson?
  let dryRun ← json.field? "dry_run" Json.boolean?
  let discovered ← json.field? "discovered" Json.number?
  let updated ← json.field? "updated" Json.number?
  let skipped ← json.field? "skipped" Json.number?
  let errored ← json.field? "errored" Json.number?
  let entries ← json.field? "files" (Json.items? Entry.ofJson?)
  return { root, dryRun, discovered, updated, skipped, errored, entries }

theorem Path.text?_eq_some_iff (path : Path) (text : Text) :
    path.text? = some text ↔ path = Path.ofText text := by
  obtain ⟨octets⟩ := path
  constructor
  · intro decoded
    have data : Utf8.encode text = ⟨octets.toArray⟩ := Utf8.encode_decode _ _ decoded
    simp [Path.ofText, Utf8.encodeOctets, data]
  · intro written
    cases written
    exact Utf8.decode_encode text

theorem Path.ofJson?_toJson? (path : Path) (json : Json) (written : path.toJson? = some json) :
    Path.ofJson? json = some path := by
  obtain ⟨text, decoded, rfl⟩ := Option.map_eq_some_iff.mp written
  rw [(path.text?_eq_some_iff text).mp decoded]
  rfl

theorem FileError.ofJson?_toJson? (error : FileError) (json : Json)
    (written : error.toJson? = some json) : FileError.ofJson? json = some error := by
  obtain ⟨file, fileWritten, rfl⟩ := Option.map_eq_some_iff.mp written
  have fields : FileError.ofJson? (.object
      [("file".toList, file), ("kind".toList, .text error.kind.keyword),
        ("message".toList, .text error.message)]) =
      do
        let file ← Path.ofJson? file
        let kind ← FileErrorKind.ofKeyword? error.kind.keyword
        return { file, kind, message := error.message } := rfl
  rw [fields, Path.ofJson?_toJson? _ _ fileWritten, FileErrorKind.ofKeyword?_keyword]
  rfl

theorem Outcome.ofJson?_members? (outcome : Outcome) (path displayPath : Json)
    (members : List (Text × Json)) (written : outcome.members? = some members) :
    Outcome.ofJson?
      (.object (("path".toList, path) :: ("display_path".toList, displayPath) :: members)) =
        some outcome := by
  cases outcome with
  | updated missingImport => cases written; rfl
  | skipped reason =>
    cases written
    have read : Outcome.ofJson? (.object
        [("path".toList, path), ("display_path".toList, displayPath),
          ("outcome".toList, .text "skipped".toList), ("reason".toList, .text reason.keyword)]) =
        (SkipReason.ofKeyword? reason.keyword).map Outcome.skipped := rfl
    rw [read, SkipReason.ofKeyword?_keyword]
    rfl
  | errored error =>
    obtain ⟨failure, failureWritten, rfl⟩ := Option.map_eq_some_iff.mp written
    have read : Outcome.ofJson? (.object
        [("path".toList, path), ("display_path".toList, displayPath),
          ("outcome".toList, .text "errored".toList), ("error".toList, failure)]) =
        (FileError.ofJson? failure).map Outcome.errored := rfl
    rw [read, error.ofJson?_toJson? failure failureWritten]
    rfl

theorem Entry.ofJson?_toJson? (entry : Entry) (json : Json)
    (written : entry.toJson? = some json) : Entry.ofJson? json = some entry := by
  unfold Entry.toJson? at written
  split at written
  next path displayPath members pathWritten displayWritten outcomeWritten =>
    cases written
    have read : Entry.ofJson? (.object
        (("path".toList, path) :: ("display_path".toList, displayPath) :: members)) =
        do
          let path' ← Path.ofJson? path
          let displayPath' ← Path.ofJson? displayPath
          let outcome ← Outcome.ofJson?
            (.object (("path".toList, path) :: ("display_path".toList, displayPath) :: members))
          return { path := path', displayPath := displayPath', outcome } := rfl
    rw [read, Path.ofJson?_toJson? _ _ pathWritten, Path.ofJson?_toJson? _ _ displayWritten,
      entry.outcome.ofJson?_members? path displayPath members outcomeWritten]
    rfl
  next => cases written

theorem Entry.mapM_ofJson?_listToJson? (entries : List Entry) (items : List Json)
    (written : Entry.listToJson? entries = some items) :
    items.mapM Entry.ofJson? = some entries := by
  induction entries generalizing items with
  | nil => cases written; rfl
  | cons entry later ih =>
    unfold Entry.listToJson? at written
    split at written
    next first rest firstWritten restWritten =>
      cases written
      rw [List.mapM_cons, entry.ofJson?_toJson? first firstWritten, ih rest restWritten]
      rfl
    next => cases written

namespace Report

theorem ofJson?_toJson? (report : Report) (json : Json) (written : report.toJson? = some json) :
    ofJson? json = some report := by
  unfold toJson? at written
  split at written
  next root entries rootWritten entriesWritten =>
    cases written
    have read : ofJson? (.object
        [("root".toList, root), ("dry_run".toList, .boolean report.dryRun),
          ("discovered".toList, .number report.discovered),
          ("updated".toList, .number report.updated), ("skipped".toList, .number report.skipped),
          ("errored".toList, .number report.errored), ("files".toList, .list entries)]) =
        do
          let root ← Path.ofJson? root
          let entries ← entries.mapM Entry.ofJson?
          return { report with root, entries } := rfl
    rw [read, Path.ofJson?_toJson? _ _ rootWritten,
      Entry.mapM_ofJson?_listToJson? _ _ entriesWritten]
    rfl
  next => cases written

theorem decode?_jsonText? (report : Report) (text : Text) (written : report.jsonText? = some text) :
    (Json.decode? text).bind ofJson? = some report := by
  obtain ⟨json, toJson, rfl⟩ := Option.map_eq_some_iff.mp written
  rw [Json.decode?_pretty, Option.bind_some]
  exact report.ofJson?_toJson? json toJson

theorem jsonText?_isSome_iff (report : Report) :
    report.jsonText?.isSome = true ↔
      ∀ path ∈ report.paths, ∃ text, path.octets = Utf8.encodeOctets text := by
  have textless : ∀ path : Path,
      ¬ path.Textless ↔ ∃ text, path.octets = Utf8.encodeOctets text := by
    intro path
    rw [Path.Textless, ← ne_eq, Option.ne_none_iff_exists']
    exact exists_congr fun text => by rw [path.text?_eq_some_iff, Path.ofText, Path.mk.injEq]
  rw [Option.isSome_iff_ne_none, ne_eq, jsonText?_eq_none_iff]
  simp only [not_exists, not_and, textless]

theorem json_lossless :
    (∀ report : Report, report.jsonText?.isSome = true ↔
      ∀ path ∈ report.paths, ∃ text, path.octets = Utf8.encodeOctets text) ∧
    (∀ (options : CommandLine.Options) (disk : Disk) (progress : Progress),
      options.format = some .json → disk.migrate options.toConfig = .ok progress →
        (options.answer disk).output = progress.report.jsonText?.getD []) ∧
    (∀ (report : Report) (text : Text), report.jsonText? = some text →
      (Json.decode? text).bind ofJson? = some report) ∧
    (∀ (first second : Report) (text : Text), first.jsonText? = some text →
      second.jsonText? = some text → first = second) := by
  refine ⟨jsonText?_isSome_iff, ?_, decode?_jsonText?, ?_⟩
  · intro options disk progress format ran
    have rendered : options.reportText? progress.report = progress.report.jsonText? := by
      simp [CommandLine.Options.reportText?, format]
    cases text : progress.report.jsonText? <;>
      simp [CommandLine.Options.answer, ran, rendered, text]
  · intro first second text firstWritten secondWritten
    have read := first.decode?_jsonText? text firstWritten
    rw [second.decode?_jsonText? text secondWritten] at read
    exact (Option.some.inj read).symm

def assorted : Report where
  root := Path.ofText "a \"b\"\\\n\t/é".toList
  dryRun := true
  discovered := 10
  updated := 1
  skipped := 1
  errored := 1
  entries :=
    [{ path := Path.ofText "a/route.ts".toList, displayPath := Path.ofText "route.ts".toList,
        outcome := .updated true },
      { path := Path.ofText "b/route.ts".toList, displayPath := Path.ofText "route.ts".toList,
        outcome := .skipped .noPatternMatched },
      { path := Path.ofText "c".toList, displayPath := Path.ofText "c".toList,
        outcome := .errored
          { file := Path.ofText "c/d".toList, kind := .walkError, message := ['\x01', '\x7f'] } }]

theorem json_lossless_assorted :
    (∃ text, assorted.jsonText? = some text ∧
      (Json.decode? text).bind ofJson? = some assorted ∧
      { assorted with skipped := 2 }.jsonText? ≠ some text) ∧
    ∃ (options : CommandLine.Options) (progress : Progress), options.format = some .json ∧
      Disk.importing.migrate options.toConfig = .ok progress ∧
      (options.answer Disk.importing).output = progress.report.jsonText?.getD [] := by
  obtain ⟨written, answered, read, determined⟩ := json_lossless
  constructor
  · have paths : ∀ path ∈ assorted.paths, ∃ text, path.octets = Utf8.encodeOctets text := by
      simp only [paths, assorted, Entry.paths, Outcome.paths, Path.ofText, List.flatMap_cons,
        List.flatMap_nil, List.cons_append, List.nil_append, List.forall_mem_cons]
      exact ⟨⟨_, rfl⟩, ⟨_, rfl⟩, ⟨_, rfl⟩, ⟨_, rfl⟩, ⟨_, rfl⟩, ⟨_, rfl⟩, ⟨_, rfl⟩, ⟨_, rfl⟩,
        List.forall_mem_nil _⟩
    obtain ⟨text, known⟩ := Option.isSome_iff_exists.mp ((written assorted).mpr paths)
    refine ⟨text, known, read assorted text known, fun other => ?_⟩
    have same := congrArg Report.skipped (determined _ _ text known other)
    exact absurd same (by decide)
  · obtain ⟨progress, ran⟩ := Disk.migrate_of_valid
      { root := Path.ofText "api".toList } Disk.importing [] (by rfl)
    exact ⟨{ root := some (Path.ofText "api".toList), format := some .json }, progress, rfl, ran,
      answered _ _ _ rfl ran⟩

end Report

end RouteMigration
