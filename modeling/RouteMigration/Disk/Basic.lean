import RouteMigration.Path.Basic
/-!
File trees: what stands at each location, and where relative paths start. A regular file stands at
one location only: there are no hard links, and overwriting it changes no other location.
-/
set_option autoImplicit false

namespace RouteMigration

structure Mode where
  readable : Bool := true
  writable : Bool := true
  searchable : Bool := true
  deriving DecidableEq

instance decidableEqData : DecidableEq ByteArray :=
  ByteArray.decEq

inductive Item where
  | file (mode : Mode) (data : ByteArray)
  | directory (mode : Mode)
  | link (target : Path)
  deriving DecidableEq

inductive Kind where
  | file
  | directory
  | link
  deriving DecidableEq

def Item.kind : Item → Kind
  | .file _ _ => .file
  | .directory _ => .directory
  | .link _ => .link

structure Disk where
  items : List (Location × Item)
  workingDirectory : Location

-- Empty, so that no path can spell it.
def removedName : Name := []

inductive AccessError where
  | notFound
  | permissionDenied
  | notDirectory
  | isDirectory
  | nameTooLong
  | tooManyLinks
  | nulInPath
  deriving DecidableEq

def AccessError.describe : AccessError → Text
  | .notFound => "No such file or directory (os error 2)".toList
  | .permissionDenied => "Permission denied (os error 13)".toList
  | .notDirectory => "Not a directory (os error 20)".toList
  | .isDirectory => "Is a directory (os error 21)".toList
  | .nameTooLong => "File name too long (os error 36)".toList
  | .tooManyLinks => "Too many levels of symbolic links (os error 40)".toList
  | .nulInPath => "file name contained an unexpected NUL byte".toList

namespace Disk

def item? (disk : Disk) (place : Location) : Option Item :=
  disk.items.lookup place

def hasWorkingDirectory (disk : Disk) : Bool :=
  !disk.workingDirectory.contains removedName

end Disk

def Location.childName? : Location → Location → Option Name
  | [], [name] => some name
  | parentName :: parent, name :: rest =>
    if parentName = name then Location.childName? parent rest else none
  | _, _ => none

theorem Location.childName?_eq_some_iff (parent place : Location) (name : Name) :
    Location.childName? parent place = some name ↔ place = parent ++ [name] := by
  induction parent generalizing place with
  | nil =>
    match place with
    | [] => simp [Location.childName?]
    | [_] => simp [Location.childName?]
    | _ :: _ :: _ => simp [Location.childName?]
  | cons parentName parent ih =>
    cases place with
    | nil => simp [Location.childName?]
    | cons first rest =>
      by_cases same : parentName = first
      · simp [Location.childName?, same, ih]
      · have different : first ≠ parentName := fun reversed => same reversed.symm
        simp [Location.childName?, same, different]

namespace Disk

def children (disk : Disk) (place : Location) : List (Name × Kind) :=
  disk.items.filterMap fun entry =>
    match Location.childName? place entry.1 with
    | none => none
    | some name => if name = removedName then none else some (name, entry.2.kind)

end Disk

end RouteMigration
