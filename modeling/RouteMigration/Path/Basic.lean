import RouteMigration.Text.Utf8
/-!
Paths as octets, and their view as components. Components order paths, compare prefixes and name
files; the octets are what is shown and looked up.
-/
set_option autoImplicit false

namespace RouteMigration

abbrev Name := Octets

def nameOf (word : String) : Name :=
  Utf8.encodeOctets word.toList

abbrev Location := List Name

structure Path where
  octets : Octets
  deriving DecidableEq

inductive Component where
  | root
  | here
  | up
  | name (name : Name)
  deriving DecidableEq

def slash : UInt8 := 0x2F

def dot : UInt8 := 0x2E

def hereName : Name := [dot]

def upName : Name := [dot, dot]

namespace Path

def ofText (text : Text) : Path :=
  { octets := Utf8.encodeOctets text }

def shown (path : Path) : Text :=
  Utf8.lossy path.octets

def text? (path : Path) : Option Text :=
  Utf8.decodeOctets? path.octets

def isAbsolute (path : Path) : Bool :=
  path.octets.head? == some slash

end Path

-- What a part between slashes counts for when it does not open the path.
def Component.ofPart? (part : Name) : Option Component :=
  if part = [] ∨ part = hereName then none
  else if part = upName then some .up
  else some (.name part)

def Component.part : Component → Name
  | .root => []
  | .here => hereName
  | .up => upName
  | .name given => given

namespace Path

def opening (path : Path) : Option Component × List Name :=
  match split slash path.octets with
  | [] => (none, [])
  | first :: later =>
    if path.isAbsolute then (some .root, later)
    else if first = hereName then (some .here, later)
    else (none, first :: later)

def components (path : Path) : List Component :=
  path.opening.1.toList ++ path.opening.2.filterMap Component.ofPart?

def joined (path : Path) (name : Name) : Path :=
  if path.octets = [] ∨ path.octets.getLast? = some slash then { octets := path.octets ++ name }
  else { octets := path.octets ++ slash :: name }

def fileName? (path : Path) : Option Name :=
  match path.components.getLast? with
  | some (.name given) => some given
  | _ => none

end Path

def Location.octets (location : Location) : Octets :=
  slash :: join slash location

def Location.path (location : Location) : Path :=
  { octets := location.octets }

namespace Path

-- Drops `.` and repeated slashes, keeps `..`, and looks at no link.
def absolute (workingDirectory : Location) (path : Path) : Path :=
  let parts := (path.opening.2.filterMap Component.ofPart?).map Component.part
  if path.isAbsolute then Location.path parts
  else Location.path (workingDirectory ++ parts)

end Path

end RouteMigration
