import RouteMigration.Migration.Config
import RouteMigration.Migration.FileError
import RouteMigration.Migration.Walk
import RouteMigration.Path.Order

set_option autoImplicit false

namespace RouteMigration

def isExcluded (patterns : List Glob.Pattern) (path : Path) : Bool :=
  patterns.any fun pattern =>
    pattern.matchesText path.shown ||
      match path.fileName? with
      | some name => pattern.matchesText (Utf8.lossy name)
      | none => false

inductive Finding where
  | passedOver
  | routeFile (path : Path)
  | failure (error : FileError)
  deriving DecidableEq

namespace Finding

def path? : Finding → Option Path
  | .routeFile path => some path
  | _ => none

def error? : Finding → Option FileError
  | .failure error => some error
  | _ => none

end Finding

structure Discovery where
  files : List Path
  errors : List FileError

def Config.targetName (config : Config) : Name :=
  Utf8.encodeOctets config.targetFileName

def walkFailure (root : Path) (error : WalkError) : FileError where
  file := error.path?.getD root
  kind := .walkError
  message := "Directory traversal error: ".toList ++ error.describe

def outsideRootFailure (path : Path) (place : Location) : FileError where
  file := path
  kind := .outsideRoot
  message :=
    "Path resolves outside scan root: ".toList ++ path.shown ++ " -> ".toList ++ place.path.shown

def unresolvedFailure (path : Path) (cause : AccessError) : FileError where
  file := path
  kind := .ioError
  message := "Failed to canonicalize path: ".toList ++ cause.describe

def unresolvedRootFailure (root : Path) (cause : AccessError) : FileError where
  file := root
  kind := .ioError
  message := "Failed to canonicalize root path: ".toList ++ cause.describe

namespace Disk

-- The boundary is tested before the exclude patterns are.
def inspect (disk : Disk) (config : Config) (patterns : List Glob.Pattern) (base : Location) :
    Visit → Finding
  | .error error => .failure (walkFailure config.root error)
  | .ok path =>
    if path.fileName? ≠ some config.targetName ∨ disk.isFile path = false then .passedOver
    else
      match disk.canonical path with
      | .error cause => .failure (unresolvedFailure path cause)
      | .ok place =>
        if !base.isPrefixOf place then .failure (outsideRootFailure path place)
        else if isExcluded patterns path then .passedOver
        else .routeFile path

def discover (disk : Disk) (config : Config) (patterns : List Glob.Pattern) : Discovery :=
  match disk.canonical config.root with
  | .error cause => { files := [], errors := [unresolvedRootFailure config.root cause] }
  | .ok base =>
    let findings :=
      (disk.walk config.followLinks config.maxDepth.toNat config.root).map
        (disk.inspect config patterns base)
    { files := Path.sorted (findings.filterMap Finding.path?)
      errors := findings.filterMap Finding.error? }

end Disk

end RouteMigration
