import RouteMigration.Text.Blank
import RouteMigration.Glob.Matching
import RouteMigration.Disk.Resolution

set_option autoImplicit false

namespace RouteMigration

structure Config where
  root : Path := Path.ofText "frontend/app/api".toList
  targetFileName : Text := "route.ts".toList
  dryRun : Bool := false
  exclude : List Text := []
  maxFileSize : UInt64 := 10485760
  followLinks : Bool := false
  maxDepth : UInt64 := 64

inductive ConfigError where
  | rootNotFound (root : Path)
  | rootNotDirectory (root : Path)
  | emptyTargetFileName
  | invalidExcludePattern (pattern : Text) (cause : Glob.PatternError)
  deriving DecidableEq

def ConfigError.describe : ConfigError → Text
  | .rootNotFound root => "Root path does not exist: ".toList ++ root.shown
  | .rootNotDirectory root => "Root path is not a directory: ".toList ++ root.shown
  | .emptyTargetFileName => "Target file name must not be empty".toList
  | .invalidExcludePattern pattern cause =>
    "Invalid exclude glob pattern '".toList ++ pattern ++ "': ".toList ++ cause.describe

def compilePatterns : List Text → Except ConfigError (List Glob.Pattern)
  | [] => .ok []
  | text :: later =>
    match Glob.Pattern.ofText text with
    | .error cause => .error (.invalidExcludePattern text cause)
    | .ok pattern =>
      match compilePatterns later with
      | .error error => .error error
      | .ok patterns => .ok (pattern :: patterns)

def Config.validate (config : Config) (disk : Disk) : Except ConfigError (List Glob.Pattern) :=
  if Text.allBlank config.targetFileName then .error .emptyTargetFileName
  else if !disk.pathExists config.root then .error (.rootNotFound config.root)
  else if !disk.isDirectory config.root then .error (.rootNotDirectory config.root)
  else compilePatterns config.exclude

end RouteMigration
