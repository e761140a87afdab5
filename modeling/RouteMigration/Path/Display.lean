import RouteMigration.Path.Basic

set_option autoImplicit false

namespace RouteMigration

namespace Path

/-- The components of the directory two levels above; none where a path has no such directory. -/
def grandparent? (path : Path) : Option (List Component) :=
  let components := path.components
  if 2 ≤ (components.filter (· != .root)).length then
    some (components.take (components.length - 2))
  else none

def isVoid (part : Name) : Bool :=
  (Component.ofPart? part).isNone

-- Void parts that come to the front are dropped too.
def dropParts : Nat → List Name → List Name
  | 0, parts => parts.dropWhile isVoid
  | _ + 1, [] => []
  | count + 1, part :: later =>
    if isVoid part then dropParts (count + 1) later else dropParts count later

def trimmedEnd (parts : List Name) : List Name :=
  (parts.reverse.dropWhile isVoid).reverse

def withoutComponents (path : Path) (count : Nat) : Path :=
  let parts := path.opening.2
  match path.opening.1, count with
  | some .root, 0 => { octets := slash :: join slash (trimmedEnd parts) }
  | some first, 0 => { octets := join slash (first.part :: trimmedEnd parts) }
  | some _, count + 1 => { octets := join slash (trimmedEnd (dropParts count parts)) }
  | none, 0 => { octets := join slash (trimmedEnd parts) }
  | none, count + 1 => { octets := join slash (trimmedEnd (dropParts (count + 1) parts)) }

def displayFrom (root path : Path) : Path :=
  match root.grandparent? with
  | some base =>
    if base.isPrefixOf path.components then path.withoutComponents base.length else path
  | none => path

end Path

end RouteMigration
