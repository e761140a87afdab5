import RouteMigration.Migration.Discovery
import RouteMigration.Migration.Reading
import RouteMigration.Migration.Report
import RouteMigration.Path.Display
import RouteMigration.Route.Rewriting

set_option autoImplicit false

namespace RouteMigration

def unwrittenFailure (path : Path) (cause : AccessError) : FileError where
  file := path
  kind := .writeError
  message := "Failed to write file: ".toList ++ cause.describe

namespace Disk

-- The path rules look for directories above the working directory too, while it has a place.
def rulePath (disk : Disk) (path : Path) : Text :=
  if path.isAbsolute || disk.hasWorkingDirectory then (path.absolute disk.workingDirectory).shown
  else path.shown

def writeRewritten (disk : Disk) (path : Path) (content : Text) : Disk × Outcome :=
  match disk.overwrite path (Utf8.encode content) with
  | .error cause => (disk, .errored (unwrittenFailure path cause))
  | .ok written => (written, .updated (Route.helperImportMissing content))

def processFile (disk : Disk) (config : Config) (path : Path) : Disk × Outcome :=
  match disk.readBounded path config.maxFileSize with
  | .error error => (disk, .errored error)
  | .ok content =>
    match Route.exclusion? (disk.rulePath path) content with
    | some reason => (disk, .skipped reason)
    | none =>
      match Route.rewrite? content with
      | none => (disk, .skipped .noPatternMatched)
      | some result =>
        if config.dryRun then (disk, .updated (Route.helperImportMissing result))
        else disk.writeRewritten path result

end Disk

structure Progress where
  disk : Disk
  report : Report

namespace Progress

def recordError (config : Config) (progress : Progress) (error : FileError) : Progress :=
  { progress with
    report := progress.report.record
      { path := error.file
        displayPath := Path.displayFrom config.root error.file
        outcome := .errored error } }

def handle (config : Config) (progress : Progress) (path : Path) : Progress :=
  let result := progress.disk.processFile config path
  { disk := result.1
    report := progress.report.record
      { path
        displayPath := Path.displayFrom config.root path
        outcome := result.2 } }

end Progress

namespace Disk

def migrate (disk : Disk) (config : Config) : Except ConfigError Progress :=
  match config.validate disk with
  | .error error => .error error
  | .ok patterns =>
    let discovery := disk.discover config patterns
    let start : Progress :=
      { disk
        report :=
          { root := config.root
            dryRun := config.dryRun
            discovered := discovery.files.length } }
    .ok (discovery.files.foldl (Progress.handle config)
      (discovery.errors.foldl (Progress.recordError config) start))

end Disk

end RouteMigration
