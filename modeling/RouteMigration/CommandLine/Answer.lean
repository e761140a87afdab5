import RouteMigration.CommandLine.Options
import RouteMigration.CommandLine.Usage
import RouteMigration.Migration.ReportJson
import RouteMigration.Migration.ReportText
import RouteMigration.Migration.Run
/-!
What the command answers: a disk, an exit code, and the texts for the two output streams.
`diagnostics` holds the error line alone: log lines, of which warnings are written by default, and
the usage error of refused arguments are left out. So empty diagnostics do not say that the error
stream stays empty.
-/
set_option autoImplicit false

namespace RouteMigration

namespace CommandLine

structure Answer where
  disk : Disk
  exitCode : Nat
  output : Text := []
  diagnostics : Text := []

def errorLine (message : Text) : Text :=
  "Error: ".toList ++ message ++ ['\n']

def Options.reportText? (options : Options) (report : Report) : Option Text :=
  match options.format.getD .human with
  | .human => some report.operatorText
  | .json => report.jsonText?

def Options.answer (options : Options) (disk : Disk) : Answer :=
  match disk.migrate options.toConfig with
  | .error error => { disk, exitCode := 1, diagnostics := errorLine error.describe }
  | .ok progress =>
    match options.reportText? progress.report with
    | some text => { disk := progress.disk, exitCode := 0, output := text }
    | none =>
      { disk := progress.disk, exitCode := 1, diagnostics := errorLine unwritablePathMessage }

def Request.answer (request : Request) (disk : Disk) : Answer :=
  match request with
  | .run options => options.answer disk
  | .help => { disk, exitCode := 0, output := usageText }
  | .version => { disk, exitCode := 0, output := versionText }
  | .refused => { disk, exitCode := 2 }

def answer (disk : Disk) (arguments : List Argument) : Answer :=
  (Request.ofArguments arguments).answer disk

end CommandLine

end RouteMigration
