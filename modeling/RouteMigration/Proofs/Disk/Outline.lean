import RouteMigration.Proofs.Disk.Skeleton

set_option autoImplicit false

namespace RouteMigration

def Item.outline (item : Item) : Item :=
  item.withData ByteArray.empty

theorem Item.outline_withData (data : ByteArray) (item : Item) :
    (item.withData data).outline = item.outline := by
  cases item <;> rfl

theorem Item.skeleton_outline (item : Item) : item.outline.skeleton = item.skeleton := by
  cases item <;> rfl

namespace Disk

def outline (disk : Disk) : Disk :=
  { disk with items := disk.items.map fun entry => (entry.1, entry.2.outline) }

theorem item?_outline (disk : Disk) (place : Location) :
    disk.outline.item? place = (disk.item? place).map Item.outline :=
  lookup_map_snd disk.items Item.outline place

theorem outline_setData (disk : Disk) (place : Location) (data : ByteArray) :
    (disk.setData place data).outline = disk.outline := by
  simp only [outline, setData, List.map_map]
  congr 1
  apply List.map_congr_left
  intro entry _
  by_cases changed : entry.1 = place <;> simp [changed, Item.outline_withData]

theorem alike_outline (disk : Disk) : disk.outline.Alike disk := by
  simp only [Alike, skeleton, outline, List.map_map, Function.comp_def, Item.skeleton_outline]

theorem alike_of_outline {first second : Disk} (same : first.outline = second.outline) :
    first.Alike second := by
  have alike : first.outline.Alike second := same ▸ second.alike_outline
  exact first.alike_outline.symm.trans alike

theorem status_outline (disk : Disk) (path : Path) :
    disk.outline.status path = (disk.status path).map fun found => (found.1, found.2.outline) := by
  simp only [status, disk.alike_outline.locate]
  cases disk.locate true path with
  | error cause => rfl
  | ok place =>
    simp only [item?_outline]
    cases disk.item? place <;> rfl

end Disk

end RouteMigration
