import RouteMigration.Disk.Access

set_option autoImplicit false

namespace RouteMigration

-- Where a path leads is settled without what files hold and who may use them.
def Item.skeleton : Item → Item
  | .file _ _ => .file {} ByteArray.empty
  | item => item

theorem Item.kind_skeleton (item : Item) : item.skeleton.kind = item.kind := by
  cases item <;> rfl

theorem lookup_map_snd {A B : Type} [BEq A] (entries : List (A × B)) (change : B → B) (key : A) :
    (entries.map fun entry => (entry.1, change entry.2)).lookup key =
      (entries.lookup key).map change := by
  induction entries with
  | nil => rfl
  | cons entry rest ih =>
    obtain ⟨first, held⟩ := entry
    simp only [List.map_cons, List.lookup_cons, ih]
    cases key == first <;> rfl

namespace Disk

def skeleton (disk : Disk) : Disk :=
  { disk with items := disk.items.map fun entry => (entry.1, entry.2.skeleton) }

@[simp] theorem workingDirectory_skeleton (disk : Disk) :
    disk.skeleton.workingDirectory = disk.workingDirectory := rfl

theorem item?_skeleton (disk : Disk) (place : Location) :
    disk.skeleton.item? place = (disk.item? place).map Item.skeleton :=
  lookup_map_snd disk.items Item.skeleton place

theorem children_skeleton (disk : Disk) (place : Location) :
    disk.skeleton.children place = disk.children place := by
  simp only [children, skeleton, List.filterMap_map, Function.comp_def, Item.kind_skeleton]

theorem advance_skeleton (disk : Disk) (followLast : Bool) (place : Location) (steps : List Step) :
    disk.skeleton.advance followLast place steps = disk.advance followLast place steps := by
  induction steps generalizing place with
  | nil => rfl
  | cons step later ih =>
    simp only [advance, item?_skeleton]
    cases standing : disk.item? place with
    | none => rfl
    | some item =>
      cases item with
      | file mode data => rfl
      | link target => rfl
      | directory mode =>
        cases step with
        | here => simp [Item.skeleton, ih]
        | up => simp [Item.skeleton, ih]
        | asDirectory => simp [Item.skeleton, ih]
        | child name =>
          cases held : disk.item? (place ++ [name]) with
          | none => simp [Item.skeleton, held]
          | some item => cases item <;> simp [Item.skeleton, held, ih]

theorem lookUp_skeleton (disk : Disk) (place : Location) :
    disk.skeleton.lookUp place = (disk.lookUp place).map Item.skeleton := by
  simp only [lookUp, advance_skeleton, item?_skeleton]
  split
  · rfl
  · cases disk.advance false [] (place.map Step.child) with
    | error cause => rfl
    | ok stop => cases disk.item? place <;> rfl

theorem climb_skeleton (disk : Disk) (place : Location) (steps : List Step) :
    disk.skeleton.climb place steps = disk.climb place steps := by
  induction steps generalizing place with
  | nil => rfl
  | cons step later ih =>
    cases step with
    | here => simp [climb, ih]
    | up => simp [climb, ih]
    | asDirectory => simp [climb, ih]
    | child name =>
      simp only [climb, lookUp_skeleton]
      cases disk.lookUp (place ++ [name]) with
      | error cause => rfl
      | ok item => cases item <;> simp [Except.map, Item.skeleton, ih]

theorem locate_skeleton (disk : Disk) (followLast : Bool) (path : Path) :
    disk.skeleton.locate followLast path = disk.locate followLast path := by
  have travel : disk.skeleton.advance followLast = disk.advance followLast := by
    funext place steps
    exact disk.advance_skeleton followLast place steps
  simp [locate, resolve, startOf, travel]

theorem canonical_skeleton (disk : Disk) (path : Path) :
    disk.skeleton.canonical path = disk.canonical path := by
  have travel : disk.skeleton.climb = disk.climb := by
    funext place steps
    exact disk.climb_skeleton place steps
  simp [canonical, startOf, hasWorkingDirectory, travel]

theorem status_skeleton (disk : Disk) (path : Path) :
    disk.skeleton.status path =
      (disk.status path).map fun found => (found.1, found.2.skeleton) := by
  simp only [status, locate_skeleton]
  cases disk.locate true path with
  | error cause => rfl
  | ok place =>
    simp only [item?_skeleton]
    cases disk.item? place <;> rfl

theorem kindAt_skeleton (disk : Disk) (path : Path) :
    disk.skeleton.kindAt path = disk.kindAt path := by
  simp only [kindAt, locate_skeleton]
  cases disk.locate false path with
  | error cause => rfl
  | ok place =>
    simp only [item?_skeleton]
    cases disk.item? place <;> simp [Item.kind_skeleton]

theorem pathExists_skeleton (disk : Disk) (path : Path) :
    disk.skeleton.pathExists path = disk.pathExists path := by
  simp only [pathExists, status_skeleton]
  cases disk.status path <;> rfl

theorem isDirectory_skeleton (disk : Disk) (path : Path) :
    disk.skeleton.isDirectory path = disk.isDirectory path := by
  simp only [isDirectory, status_skeleton]
  cases disk.status path with
  | error cause => rfl
  | ok found =>
    obtain ⟨place, item⟩ := found
    cases item <;> rfl

theorem isFile_skeleton (disk : Disk) (path : Path) :
    disk.skeleton.isFile path = disk.isFile path := by
  simp only [isFile, status_skeleton]
  cases disk.status path with
  | error cause => rfl
  | ok found =>
    obtain ⟨place, item⟩ := found
    cases item <;> rfl

theorem list_skeleton (disk : Disk) (path : Path) : disk.skeleton.list path = disk.list path := by
  simp only [list, status_skeleton]
  cases disk.status path with
  | error cause => rfl
  | ok found =>
    obtain ⟨place, item⟩ := found
    cases item <;> simp [Except.map, Item.skeleton, children_skeleton]

/-- Two disks that differ at most in the modes and the data of their files. -/
def Alike (first second : Disk) : Prop :=
  first.skeleton = second.skeleton

theorem Alike.locate {first second : Disk} (alike : first.Alike second) (followLast : Bool)
    (path : Path) : first.locate followLast path = second.locate followLast path := by
  rw [← locate_skeleton, alike, locate_skeleton]

end Disk

end RouteMigration
