import RouteMigration.Disk.Basic

set_option autoImplicit false

namespace RouteMigration

inductive Step where
  | here
  | up
  | child (name : Name)
  -- A trailing slash: what stands before it has to be a directory.
  | asDirectory
  deriving DecidableEq

def Step.ofName (name : Name) : Step :=
  if name = hereName then .here
  else if name = upName then .up
  else .child name

def Step.ofParts : List Name → List Step
  | [] => []
  | [last] => if last = [] then [.asDirectory] else [Step.ofName last]
  | part :: later => if part = [] then Step.ofParts later else Step.ofName part :: Step.ofParts later

def Path.steps (path : Path) : List Step :=
  Step.ofParts (split slash path.octets)

def linkLimit : Nat := 40

def nameLimit : Nat := 255

def pathLimit : Nat := 4095

/-- Where steps end, or the first link on the way with the steps that are still to be taken. -/
inductive Stop where
  | arrived (place : Location)
  | link (directory : Location) (target : Path) (later : List Step)

def absence (directory : Location) (name : Name) : AccessError :=
  if nameLimit < name.length ∧ removedName ∉ directory then .nameTooLong else .notFound

namespace Disk

def advance (disk : Disk) (followLast : Bool) : Location → List Step → Except AccessError Stop
  | place, [] => .ok (.arrived place)
  | place, step :: later =>
    match disk.item? place with
    | none => .error .notFound
    | some (.file _ _) => .error .notDirectory
    | some (.link _) => .error .notDirectory
    | some (.directory mode) =>
      match step with
      | .asDirectory => disk.advance followLast place later
      | .here =>
        if mode.searchable then disk.advance followLast place later else .error .permissionDenied
      | .up =>
        if mode.searchable then disk.advance followLast place.dropLast later
        else .error .permissionDenied
      | .child name =>
        if !mode.searchable then .error .permissionDenied
        else
          match disk.item? (place ++ [name]) with
          | none => .error (absence place name)
          | some (.link target) =>
            if later = [] ∧ followLast = false then .ok (.arrived (place ++ [name]))
            else .ok (.link place target later)
          | some _ => disk.advance followLast (place ++ [name]) later

def lookUp (disk : Disk) (place : Location) : Except AccessError Item :=
  if pathLimit < place.octets.length then .error .nameTooLong
  else
    match disk.advance false [] (place.map Step.child), disk.item? place with
    | .error error, _ => .error error
    | .ok _, none => .error .notFound
    | .ok _, some item => .ok item

-- Goes by places instead of directories, so only names are looked up.
def climb (disk : Disk) : Location → List Step → Except AccessError Stop
  | place, [] => .ok (.arrived place)
  | place, .up :: later => disk.climb place.dropLast later
  | place, .here :: later | place, .asDirectory :: later => disk.climb place later
  | place, .child name :: later =>
    match disk.lookUp (place ++ [name]) with
    | .error error => .error error
    | .ok (.link target) => .ok (.link place target later)
    | .ok (.directory _) => disk.climb (place ++ [name]) later
    | .ok (.file _ _) =>
      if later = [] then .ok (.arrived (place ++ [name])) else .error .notDirectory

end Disk

def throughLinks (travel : Location → List Step → Except AccessError Stop) :
    Nat → Location → List Step → Except AccessError Location
  | links, place, steps =>
    match travel place steps with
    | .error error => .error error
    | .ok (.arrived last) => .ok last
    | .ok (.link directory target later) =>
      if target.octets = [] then .error .notFound
      else
        match links with
        | 0 => .error .tooManyLinks
        | links + 1 =>
          throughLinks travel links (if target.isAbsolute then [] else directory)
            (target.steps ++ later)

namespace Disk

def resolve (disk : Disk) (followLast : Bool) (place : Location) (steps : List Step) :
    Except AccessError Location :=
  throughLinks (disk.advance followLast) linkLimit place steps

def startOf (disk : Disk) (path : Path) : Location :=
  if path.isAbsolute then [] else disk.workingDirectory

def locate (disk : Disk) (followLast : Bool) (path : Path) : Except AccessError Location :=
  if 0 ∈ path.octets then .error .nulInPath
  else if path.octets = [] then .error .notFound
  else if pathLimit < path.octets.length then .error .nameTooLong
  else
    disk.resolve followLast (disk.startOf path) path.steps

def status (disk : Disk) (path : Path) : Except AccessError (Location × Item) :=
  match disk.locate true path with
  | .error error => .error error
  | .ok place =>
    match disk.item? place with
    | none => .error .notFound
    | some item => .ok (place, item)

def kindAt (disk : Disk) (path : Path) : Except AccessError Kind :=
  match disk.locate false path with
  | .error error => .error error
  | .ok place =>
    match disk.item? place with
    | none => .error .notFound
    | some item => .ok item.kind

def pathExists (disk : Disk) (path : Path) : Bool :=
  match disk.status path with
  | .ok _ => true
  | .error _ => false

def isDirectory (disk : Disk) (path : Path) : Bool :=
  match disk.status path with
  | .ok (_, .directory _) => true
  | _ => false

def isFile (disk : Disk) (path : Path) : Bool :=
  match disk.status path with
  | .ok (_, .file _ _) => true
  | _ => false

def canonical (disk : Disk) (path : Path) : Except AccessError Location :=
  if 0 ∈ path.octets then .error .nulInPath
  else if path.octets = [] then .error .notFound
  -- A removed working directory has no place to start from.
  else if !path.isAbsolute && !disk.hasWorkingDirectory then .error .notFound
  else throughLinks disk.climb linkLimit (disk.startOf path) path.steps

end Disk

end RouteMigration
