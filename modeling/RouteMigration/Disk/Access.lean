import RouteMigration.Disk.Resolution

set_option autoImplicit false

namespace RouteMigration

structure Listing where
  place : Location
  entries : List (Name × Kind)

inductive Opened where
  | file (data : ByteArray)
  | directory

def Item.withData (data : ByteArray) : Item → Item
  | .file mode _ => .file mode data
  | item => item

namespace Disk

def list (disk : Disk) (path : Path) : Except AccessError Listing :=
  match disk.status path with
  | .error error => .error error
  | .ok (place, .directory mode) =>
    if mode.readable then .ok { place, entries := disk.children place }
    else .error .permissionDenied
  | .ok _ => .error .notDirectory

-- A directory can be opened like a file; only reading from it fails.
def openForReading (disk : Disk) (path : Path) : Except AccessError Opened :=
  match disk.status path with
  | .error error => .error error
  | .ok (_, .file mode data) =>
    if mode.readable then .ok (.file data) else .error .permissionDenied
  | .ok (_, .directory mode) =>
    if mode.readable then .ok .directory else .error .permissionDenied
  | .ok (_, .link _) => .error .tooManyLinks

-- A regular file stands at one location only, without hard links, so nothing else changes.
def setData (disk : Disk) (place : Location) (data : ByteArray) : Disk :=
  { disk with
    items := disk.items.map fun entry =>
      if entry.1 = place then (entry.1, entry.2.withData data) else entry }

def overwrite (disk : Disk) (path : Path) (data : ByteArray) : Except AccessError Disk :=
  match disk.status path with
  | .error error => .error error
  | .ok (place, .file mode _) =>
    if mode.writable then .ok (disk.setData place data) else .error .permissionDenied
  | .ok (_, .directory _) => .error .isDirectory
  | .ok (_, .link _) => .error .tooManyLinks

theorem item?_setData (disk : Disk) (place other : Location) (data : ByteArray) :
    (disk.setData place data).item? other =
      (disk.item? other).map fun item => if other = place then item.withData data else item := by
  simp only [item?, setData]
  induction disk.items with
  | nil => simp
  | cons entry rest ih =>
    obtain ⟨first, item⟩ := entry
    by_cases sought : other = first
    · subst sought
      by_cases changed : other = place <;> simp [changed]
    · have missed : (other == first) = false := by simpa using sought
      by_cases changed : first = place
      · subst changed
        simp [List.lookup_cons, missed, ih]
      · simp [List.lookup_cons, changed, missed, ih]

end Disk

end RouteMigration
