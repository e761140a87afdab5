import RouteMigration.Path.Basic

set_option autoImplicit false

namespace RouteMigration

def compareLists {A : Type} (compareItems : A → A → Ordering) : List A → List A → Ordering
  | [], [] => .eq
  | [], _ :: _ => .lt
  | _ :: _, [] => .gt
  | first :: firstRest, second :: secondRest =>
    (compareItems first second).then (compareLists compareItems firstRest secondRest)

def Name.compare (first second : Name) : Ordering :=
  compareLists (fun left right => Ord.compare left.toNat right.toNat) first second

namespace Component

def rank : Component → Nat
  | .root => 0
  | .here => 1
  | .up => 2
  | .name _ => 3

def compare : Component → Component → Ordering
  | .name first, .name second => Name.compare first second
  | first, second => Ord.compare first.rank second.rank

end Component

namespace Path

def compare (first second : Path) : Ordering :=
  compareLists Component.compare first.components second.components

def insertOrdered (path : Path) : List Path → List Path
  | [] => [path]
  | next :: later =>
    match path.compare next with
    | .lt => path :: next :: later
    | .eq => path :: later
    | .gt => next :: insertOrdered path later

def sorted (paths : List Path) : List Path :=
  paths.foldr insertOrdered []

end Path

end RouteMigration
