import RouteMigration.Disk.Access

set_option autoImplicit false

namespace RouteMigration

inductive WalkError where
  -- Without a path where the failure came from opening the target of a link.
  | access (path : Option Path) (cause : AccessError)
  | loop (link ancestor : Path)
  deriving DecidableEq

namespace WalkError

def describe : WalkError → Text
  | .access none cause => cause.describe
  | .access (some path) cause =>
    "IO error for operation on ".toList ++ path.shown ++ ": ".toList ++ cause.describe
  | .loop link ancestor =>
    "File system loop found: ".toList ++ link.shown ++ " points to an ancestor ".toList ++
      ancestor.shown

def path? : WalkError → Option Path
  | .access path _ => path
  | .loop link _ => some link

end WalkError

abbrev Visit := Except WalkError Path

structure Ancestor where
  path : Path
  place : Location

namespace Disk

-- A link to a directory must not lead back to a directory on the way down.
def followedKind (disk : Disk) (ancestors : List Ancestor) (link : Path) :
    Except WalkError Kind :=
  match disk.status link with
  | .error cause => .error (.access (some link) cause)
  | .ok (place, .directory mode) =>
    if !mode.readable then .error (.access none .permissionDenied)
    else
      match ancestors.find? fun ancestor => ancestor.place == place with
      | some ancestor => .error (.loop link ancestor.path)
      | none => .ok .directory
  | .ok (_, item) => .ok item.kind

def entryKind (disk : Disk) (followLinks : Bool) (ancestors : List Ancestor) (path : Path)
    (kind : Kind) : Except WalkError Kind :=
  if followLinks = true ∧ kind = .link then disk.followedKind ancestors path else .ok kind

/-- The visits to an entry and to what lies at most `depth` levels below it. -/
def visits (disk : Disk) (followLinks : Bool) :
    Nat → List Ancestor → Path → Kind → List Visit
  | depth, ancestors, path, kind =>
    match disk.entryKind followLinks ancestors path kind with
    | .error error => [.error error]
    | .ok .directory =>
      .ok path ::
        match depth with
        | 0 => []
        | depth + 1 =>
          match disk.list path with
          | .error cause => [.error (.access (some path) cause)]
          | .ok listing =>
            listing.entries.flatMap fun entry =>
              disk.visits followLinks depth ({ path, place := listing.place } :: ancestors)
                (path.joined entry.1) entry.2
    | .ok _ => [.ok path]

-- A link as the root is entered as if it were the directory it leads to.
def rootKind (disk : Disk) (followLinks : Bool) (root : Path) : Except AccessError Kind :=
  match disk.kindAt root with
  | .ok .link =>
    if followLinks then .ok .link
    else if disk.isDirectory root then .ok .directory
    else .ok .link
  | result => result

def walk (disk : Disk) (followLinks : Bool) (maxDepth : Nat) (root : Path) : List Visit :=
  match disk.rootKind followLinks root with
  | .error cause => [.error (.access (some root) cause)]
  | .ok kind => disk.visits followLinks maxDepth [] root kind

end Disk

end RouteMigration
