import Mathlib.Data.List.Induction
import RouteMigration.Disk.Access
import RouteMigration.Proofs.Disk.LexicalPlace
import RouteMigration.Proofs.Path.Joined

set_option autoImplicit false

namespace RouteMigration

/-- Each place is listed once, and what stands anywhere but at the top stands in a directory. -/
structure Disk.Tree (disk : Disk) : Prop where
  distinct : (disk.items.map Prod.fst).Nodup
  proper : ∀ entry ∈ disk.items, ∀ name ∈ entry.1, name.Proper
  parent : ∀ entry ∈ disk.items, entry.1 ≠ [] →
    (disk.item? entry.1.dropLast).map Item.kind = some .directory

theorem lookup_eq_some_iff_mem {A B : Type} [BEq A] [LawfulBEq A] (entries : List (A × B))
    (distinct : (entries.map Prod.fst).Nodup) (key : A) (value : B) :
    entries.lookup key = some value ↔ (key, value) ∈ entries := by
  induction entries with
  | nil => simp
  | cons entry later ih =>
    obtain ⟨first, held⟩ := entry
    rw [List.map_cons, List.nodup_cons] at distinct
    by_cases sought : key = first
    · subst sought
      have absent : (key, value) ∉ later :=
        fun member => distinct.1 (List.mem_map.mpr ⟨(key, value), member, rfl⟩)
      simp [absent, eq_comm]
    · have missed : (key == first) = false := by simpa using sought
      simp [List.lookup_cons, missed, sought, ih distinct.2]

theorem Item.kind_eq_directory_iff (item : Item) :
    item.kind = .directory ↔ ∃ mode, item = .directory mode := by
  cases item <;> simp [Item.kind]

namespace Disk

namespace Tree

variable {disk : Disk} (tree : disk.Tree)

include tree

theorem item?_eq_some_iff (place : Location) (item : Item) :
    disk.item? place = some item ↔ (place, item) ∈ disk.items :=
  lookup_eq_some_iff_mem disk.items tree.distinct place item

theorem proper_of_item? {place : Location} {item : Item} (held : disk.item? place = some item) :
    ∀ name ∈ place, name.Proper :=
  tree.proper (place, item) ((tree.item?_eq_some_iff place item).mp held)

theorem exists_parent {place : Location} {name : Name} {item : Item}
    (held : disk.item? (place ++ [name]) = some item) :
    ∃ mode, disk.item? place = some (.directory mode) := by
  have kind := tree.parent _ ((tree.item?_eq_some_iff _ item).mp held) (by simp)
  rw [List.dropLast_concat, Option.map_eq_some_iff] at kind
  obtain ⟨parent, standing, directory⟩ := kind
  obtain ⟨mode, rfl⟩ := parent.kind_eq_directory_iff.mp directory
  exact ⟨mode, standing⟩

theorem exists_above {place : Location} {names : List Name} {item : Item}
    (held : disk.item? (place ++ names) = some item) (below : names ≠ []) :
    ∃ mode, disk.item? place = some (.directory mode) := by
  induction names using List.reverseRecOn generalizing item with
  | nil => exact absurd rfl below
  | append_singleton names name ih =>
    rw [← List.append_assoc] at held
    obtain ⟨mode, parent⟩ := tree.exists_parent held
    by_cases direct : names = []
    · subst direct
      exact ⟨mode, by simpa using parent⟩
    · exact ih parent direct

theorem mem_children (place : Location) (name : Name) (kind : Kind) :
    (name, kind) ∈ disk.children place ↔
      ∃ item, disk.item? (place ++ [name]) = some item ∧ item.kind = kind := by
  simp only [children, List.mem_filterMap, Prod.exists]
  constructor
  · rintro ⟨other, item, member, found⟩
    cases child : Location.childName? place other with
    | none => simp [child] at found
    | some given =>
      obtain rfl := (Location.childName?_eq_some_iff place other given).mp child
      have named : given ≠ removedName :=
        (tree.proper _ member given (by simp)).filled
      simp only [child, named, if_false, Option.some.injEq, Prod.mk.injEq] at found
      obtain ⟨rfl, rfl⟩ := found
      exact ⟨item, (tree.item?_eq_some_iff _ item).mpr member, rfl⟩
  · rintro ⟨item, held, rfl⟩
    have child := (Location.childName?_eq_some_iff place (place ++ [name]) name).mpr rfl
    have named : name ≠ removedName := (tree.proper_of_item? held name (by simp)).filled
    exact ⟨place ++ [name], item, (tree.item?_eq_some_iff _ item).mp held, by simp [child, named]⟩

theorem hasWorkingDirectory (item : Item)
    (held : disk.item? disk.workingDirectory = some item) : disk.hasWorkingDirectory = true := by
  simp only [Disk.hasWorkingDirectory, Bool.not_eq_true', List.contains_eq_mem,
    decide_eq_false_iff_not]
  exact fun removed => (tree.proper_of_item? held removedName removed).filled rfl

end Tree

theorem exists_directory_of_advance (disk : Disk) (followLast : Bool) (place : Location) (steps : List Step)
    (stop : Stop) (onward : steps ≠ [])
    (advanced : disk.advance followLast place steps = .ok stop) :
    ∃ mode, disk.item? place = some (.directory mode) := by
  obtain ⟨step, later, rfl⟩ := List.exists_cons_of_ne_nil onward
  unfold advance at advanced
  split at advanced
  next => cases advanced
  next => cases advanced
  next => cases advanced
  next mode standing => exact ⟨mode, standing⟩

theorem advance_append (disk : Disk) (place : Location) (steps more : List Step) :
    disk.advance true place (steps ++ more) =
      match disk.advance true place steps with
      | .error cause => .error cause
      | .ok (.arrived reached) => disk.advance true reached more
      | .ok (.link directory target later) => .ok (.link directory target (later ++ more)) := by
  induction steps generalizing place with
  | nil => rfl
  | cons step later ih =>
    simp only [List.cons_append, advance]
    cases disk.item? place with
    | none => rfl
    | some item =>
      cases item with
      | file mode data => rfl
      | link target => rfl
      | directory mode =>
        cases step with
        | asDirectory => exact ih place
        | here => by_cases open_ : mode.searchable = true <;> simp [open_, ih]
        | up => by_cases open_ : mode.searchable = true <;> simp [open_, ih]
        | child name =>
          by_cases searchable : mode.searchable = true
          · cases held : disk.item? (place ++ [name]) with
            | none => simp [searchable, held]
            | some item => cases item <;> simp [searchable, held, ih]
          · simp [searchable]

theorem throughLinks_append (disk : Disk) (links : Nat) (place : Location) (steps : List Step) :
    (∃ cause, ∀ more,
      throughLinks (disk.advance true) links place (steps ++ more) = .error cause) ∨
    ∃ reached fewer, ∀ more,
      throughLinks (disk.advance true) links place (steps ++ more) =
        throughLinks (disk.advance true) fewer reached more := by
  induction links using Nat.strongRecOn generalizing place steps with
  | _ links ih =>
    cases advanced : disk.advance true place steps with
    | error cause =>
      refine .inl ⟨cause, fun more => ?_⟩
      unfold throughLinks
      simp [advance_append, advanced]
    | ok stop =>
      cases stop with
      | arrived reached =>
        refine .inr ⟨reached, links, fun more => ?_⟩
        unfold throughLinks
        simp [advance_append, advanced]
      | link directory target later =>
        have linked (more : List Step) : disk.advance true place (steps ++ more) =
            .ok (.link directory target (later ++ more)) := by
          rw [advance_append, advanced]
        by_cases void : target.octets = []
        · refine .inl ⟨.notFound, fun more => ?_⟩
          unfold throughLinks
          simp [linked, void]
        cases links with
        | zero =>
          refine .inl ⟨.tooManyLinks, fun more => ?_⟩
          unfold throughLinks
          simp [linked, void]
        | succ links =>
          have further (more : List Step) :
              throughLinks (disk.advance true) (links + 1) place (steps ++ more) =
                throughLinks (disk.advance true) links
                  (if target.isAbsolute then [] else directory)
                  (target.steps ++ later ++ more) := by
            rw [throughLinks]
            simp [linked, void]
          simp only [further]
          exact ih links (Nat.lt_succ_self links) _ _

theorem throughLinks_asDirectory (disk : Disk) (links : Nat) (reached place : Location)
    (travelled : throughLinks (disk.advance true) links reached [.asDirectory] = .ok place) :
    reached = place := by
  rw [throughLinks] at travelled
  cases held : disk.item? reached with
  | none => simp [advance, held] at travelled
  | some item =>
    cases item with
    | directory mode => simpa [advance, held] using travelled
    | file _ _ | link _ => simp [advance, held] at travelled

theorem locate_joined (disk : Disk) (path : Path) (place : Location) (mode : Mode) (name : Name)
    (item : Item) (located : disk.locate true path = .ok place)
    (directory : disk.item? place = some (.directory mode))
    (held : disk.item? (place ++ [name]) = some item) (plain : item.kind ≠ .link)
    (proper : name.Proper) : disk.locate true (path.joined name) =
      if pathLimit < (path.joined name).octets.length then .error .nameTooLong
      else if mode.searchable then .ok (place ++ [name])
      else .error .permissionDenied := by
  obtain ⟨printable, filled, -, resolved⟩ := locate_eq_ok_iff.mp located
  obtain ⟨lead, steps, joined⟩ := path.steps_joined filled name proper
  have start : disk.startOf (path.joined name) = disk.startOf path := by
    simp only [startOf, path.isAbsolute_joined filled name]
  have onward : disk.resolve true (disk.startOf path) (lead ++ [.child name]) =
      if mode.searchable then .ok (place ++ [name]) else .error .permissionDenied := by
    simp only [resolve] at resolved ⊢
    rcases disk.throughLinks_append linkLimit (disk.startOf path) lead with
      ⟨cause, fails⟩ | ⟨reached, fewer, goes⟩
    · rcases steps with same | slashed
      · rw [same, ← List.append_nil lead, fails] at resolved
        cases resolved
      · rw [slashed, fails] at resolved
        cases resolved
    · have arrived : reached = place := by
        rcases steps with same | slashed
        · rw [same, ← List.append_nil lead, goes] at resolved
          simpa [throughLinks, advance] using resolved
        · rw [slashed, goes] at resolved
          exact disk.throughLinks_asDirectory fewer reached place resolved
      subst arrived
      rw [goes, throughLinks]
      by_cases searchable : mode.searchable = true
      · cases item with
        | link target => exact absurd rfl plain
        | file _ _ | directory _ => simp [advance, directory, held, searchable]
      · simp [advance, directory, searchable]
  simp only [locate, path.printable_joined name proper printable, path.filled_joined name proper,
    if_false, start, joined, onward]

theorem Tree.status_joined {disk : Disk} (tree : disk.Tree) (path : Path) (place : Location)
    (name : Name) (item : Item) (located : disk.locate true path = .ok place)
    (held : disk.item? (place ++ [name]) = some item) (plain : item.kind ≠ .link)
    (searchable : ∀ mode, disk.item? place = some (.directory mode) → mode.searchable = true)
    (short : (path.joined name).octets.length ≤ pathLimit) :
    disk.status (path.joined name) = .ok (place ++ [name], item) := by
  obtain ⟨mode, directory⟩ := tree.exists_parent held
  have step := disk.locate_joined path place mode name item located directory held plain
    (tree.proper_of_item? held name (by simp))
  rw [if_neg (Nat.not_lt.mpr short), if_pos (searchable mode directory)] at step
  exact status_of_locate step held

theorem list_of_locate (disk : Disk) (path : Path) (place : Location) (mode : Mode)
    (located : disk.locate true path = .ok place)
    (directory : disk.item? place = some (.directory mode)) : disk.list path =
      if mode.readable then .ok { place, entries := disk.children place }
      else .error .permissionDenied := by
  simp [list, status, located, directory]

theorem advance_congr_item? {first second : Disk}
    (same : ∀ place, first.item? place = second.item? place) (followLast : Bool) (place : Location)
    (steps : List Step) :
    first.advance followLast place steps = second.advance followLast place steps := by
  induction steps generalizing place with
  | nil => rfl
  | cons step later ih => simp only [advance, same, ih]

theorem locate_congr_item? {first second : Disk}
    (same : ∀ place, first.item? place = second.item? place)
    (workingDirectory : first.workingDirectory = second.workingDirectory) (followLast : Bool)
    (path : Path) : first.locate followLast path = second.locate followLast path := by
  have travels : first.advance followLast = second.advance followLast := by
    funext place steps
    exact advance_congr_item? same followLast place steps
  simp only [locate, resolve, startOf, travels, workingDirectory]

theorem Tree.item?_of_perm {disk other : Disk} (tree : disk.Tree)
    (items : other.items.Perm disk.items) (place : Location) :
    other.item? place = disk.item? place := by
  have distinct : (other.items.map Prod.fst).Nodup :=
    (items.map Prod.fst).nodup_iff.mpr tree.distinct
  apply Option.ext
  intro item
  rw [item?, lookup_eq_some_iff_mem other.items distinct, items.mem_iff, tree.item?_eq_some_iff]

theorem Tree.of_perm {disk other : Disk} (tree : disk.Tree)
    (items : other.items.Perm disk.items) : other.Tree where
  distinct := (items.map Prod.fst).nodup_iff.mpr tree.distinct
  proper := fun entry member => tree.proper entry (items.mem_iff.mp member)
  parent := by
    intro entry member below
    rw [tree.item?_of_perm items]
    exact tree.parent entry (items.mem_iff.mp member) below

end Disk

end RouteMigration
