import RouteMigration.Disk.Resolution

set_option autoImplicit false

namespace RouteMigration

inductive Edit where
  | file (path : Path) (data : ByteArray)
  | directory (path : Path)
  | link (path target : Path)
  | remove (path : Path)
  | mode (path : Path) (mode : Mode)

def Mode.ofDigit (digit : Nat) : Mode where
  readable := digit / 4 % 2 == 1
  writable := digit / 2 % 2 == 1
  searchable := digit % 2 == 1

namespace Disk

-- The lookups of an edit ask for no permission.
def unguarded (disk : Disk) : Disk :=
  { disk with
    items := disk.items.map fun entry =>
      match entry.2 with
      | .directory _ => (entry.1, .directory {})
      | _ => entry }

def put (disk : Disk) (place : Location) (item : Item) : Disk :=
  match disk.item? place with
  | none => { disk with items := disk.items ++ [(place, item)] }
  | some _ =>
    { disk with
      items := disk.items.map fun entry => if entry.1 = place then (place, item) else entry }

def create (disk : Disk) (place : Location) (item : Item) : Except AccessError Disk :=
  if place.contains removedName then .error .notFound else .ok (disk.put place item)

def makeStep (disk : Disk) (place : Location) : Step → Except AccessError (Disk × Location)
  | .child name =>
    if nameLimit < name.length then .error .nameTooLong
    else
      match disk.item? (place ++ [name]) with
      | none =>
        match disk.create (place ++ [name]) (.directory {}) with
        | .error error => .error error
        | .ok made => .ok (made, place ++ [name])
      | some _ =>
        match disk.unguarded.resolve true place [.child name, .asDirectory] with
        | .error error => .error error
        | .ok next => .ok (disk, next)
  | .up => .ok (disk, place.dropLast)
  | .here | .asDirectory => .ok (disk, place)

def makeDirectories (disk : Disk) (place : Location) :
    List Step → Except AccessError (Disk × Location)
  | [] => .ok (disk, place)
  | step :: later =>
    match disk.makeStep place step with
    | .error error => .error error
    | .ok (made, next) => made.makeDirectories next later

def makeParent (disk : Disk) (path : Path) : Except AccessError (Disk × Location × Name) :=
  if 0 ∈ path.octets then .error .nulInPath
  else if pathLimit < path.octets.length then .error .nameTooLong
  else
    match path.steps.getLast? with
    | some (.child name) =>
      if nameLimit < name.length then .error .nameTooLong
      else
        match disk.makeDirectories (disk.startOf path) path.steps.dropLast with
        | .error error => .error error
        | .ok (made, parent) => .ok (made, parent, name)
    | _ => .error .isDirectory

def filePlace (disk : Disk) : Nat → Location → Name → Except AccessError Location
  | links, directory, name =>
    match disk.item? (directory ++ [name]) with
    | some (.link target) =>
      match links, target.steps.getLast? with
      | 0, _ => .error .tooManyLinks
      | links + 1, some (.child last) =>
        if nameLimit < last.length then .error .nameTooLong
        else
          match disk.resolve true (if target.isAbsolute then [] else directory)
            (target.steps.dropLast ++ [.asDirectory]) with
          | .error error => .error error
          | .ok parent => disk.filePlace links parent last
      | _, _ => .error .isDirectory
    | _ => .ok (directory ++ [name])

def putFile (disk : Disk) (path : Path) (data : ByteArray) : Except AccessError Disk :=
  match disk.makeParent path with
  | .error error => .error error
  | .ok (made, parent, name) =>
    match made.unguarded.filePlace linkLimit parent name with
    | .error error => .error error
    | .ok place =>
      match made.item? place with
      | none => made.create place (.file {} data)
      | some (.file mode _) => .ok (made.put place (.file mode data))
      | some _ => .error .isDirectory

def putLink (disk : Disk) (path target : Path) : Except AccessError Disk :=
  if 0 ∈ target.octets then .error .nulInPath
  else if target.octets = [] then .error .notFound
  else if pathLimit < target.octets.length then .error .nameTooLong
  else
    match disk.makeParent path with
    | .error error => .error error
    | .ok (made, parent, name) =>
      match made.item? (parent ++ [name]) with
      | none => made.create (parent ++ [name]) (.link target)
      | some _ => .error .isDirectory

def putDirectory (disk : Disk) (path : Path) : Except AccessError Disk :=
  if 0 ∈ path.octets then .error .nulInPath
  else if pathLimit < path.octets.length then .error .nameTooLong
  else
    match disk.makeDirectories (disk.startOf path) path.steps with
    | .error error => .error error
    | .ok (made, _) => .ok made

def remainingNames (gone : Location → Bool) (above : Location) : List Name → List Name
  | [] => []
  | name :: later =>
    (if gone (above ++ [name]) then removedName else name) ::
      remainingNames gone (above ++ [name]) later

-- Of the places that are gone, the working directory and those on the way to it stay, nameless.
def removeWhere (disk : Disk) (gone : Location → Bool) : Disk :=
  let way := (List.range (disk.workingDirectory.length + 1)).map disk.workingDirectory.take
  let nameless := (way.filter gone).filterMap fun place =>
    (disk.item? place).map fun item => (remainingNames gone [] place, item)
  { items := disk.items.filter (fun entry => !gone entry.1) ++ nameless
    workingDirectory := remainingNames gone [] disk.workingDirectory }

-- A directory that is not called by its own name is emptied, and stays.
def removePath (disk : Disk) (path : Path) : Except AccessError Disk :=
  match disk.unguarded.locate false path with
  | .error error => .error error
  | .ok place =>
    match disk.item? place, (path.steps.filter (· ≠ .asDirectory)).getLast? with
    | none, _ => .error .notFound
    | some _, some (.child _) => .ok (disk.removeWhere place.isPrefixOf)
    | some _, _ =>
      .ok (disk.removeWhere fun other => place.isPrefixOf other && other != place)

def setMode (disk : Disk) (path : Path) (mode : Mode) : Except AccessError Disk :=
  match disk.unguarded.locate true path with
  | .error error => .error error
  | .ok place =>
    match disk.item? place with
    | some (.file _ data) => .ok (disk.put place (.file mode data))
    | some (.directory _) => .ok (disk.put place (.directory mode))
    | _ => .error .notFound

def edited (disk : Disk) : Edit → Except AccessError Disk
  | .file path data => disk.putFile path data
  | .directory path => disk.putDirectory path
  | .link path target => disk.putLink path target
  | .remove path => disk.removePath path
  | .mode path mode => disk.setMode path mode

end Disk

end RouteMigration
