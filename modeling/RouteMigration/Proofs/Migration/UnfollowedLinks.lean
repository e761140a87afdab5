import RouteMigration.Proofs.Migration.Coverage
import RouteMigration.Proofs.Migration.Effect

set_option autoImplicit false

namespace RouteMigration

namespace Disk

theorem entryKind_unfollowed (disk : Disk) (ancestors : List Ancestor) (path : Path)
    (kind : Kind) : disk.entryKind false ancestors path kind = .ok kind := by
  simp [entryKind]

theorem locate_joined_of_list (disk : Disk) (tree : disk.Tree) (path : Path) (place : Location)
    (name : Name) (mode : Mode) (located : disk.locate true path = .ok place)
    (held : disk.item? (place ++ [name]) = some (.directory mode)) (listing : Listing)
    (listed : disk.list (path.joined name) = .ok listing) :
    disk.locate true (path.joined name) = .ok (place ++ [name]) := by
  obtain ⟨parentMode, parent⟩ := tree.exists_parent held
  have step := disk.locate_joined path place parentMode name _ located parent held
    (by simp [Item.kind]) (tree.proper_of_item? held name (by simp))
  cases reached : disk.locate true (path.joined name) with
  | error cause => simp [list, status, reached] at listed
  | ok other =>
    rw [reached] at step
    split at step
    next => cases step
    next => split at step <;> cases step; rfl

theorem entry_of_mem_visits (disk : Disk) (tree : disk.Tree) (depth : Nat)
    (ancestors : List Ancestor) (path : Path) (place : Location) (item : Item)
    (held : disk.item? place = some item)
    (located : item.kind = .directory → ∀ listing, disk.list path = .ok listing →
      disk.locate true path = .ok place)
    (visited : Path) (member : .ok visited ∈ disk.visits false depth ancestors path item.kind) :
    ∃ names found, visited = path.below names ∧ names.length ≤ depth ∧
      disk.item? (place ++ names) = some found ∧
      ∀ above last, names = above ++ [last] →
        disk.locate true (path.below above) = .ok (place ++ above) := by
  induction depth using Nat.strongRecOn generalizing ancestors path place item with
  | _ depth ih =>
    rcases disk.visits_cases false depth ancestors path _ _ member with
      ⟨error, -, failed⟩ | here | ⟨fewer, rfl, entered, ⟨cause, -, failed⟩ |
        ⟨listing, name, next, listed, entry, below⟩⟩
    · cases failed
    · cases here
      exact ⟨[], item, rfl, Nat.zero_le _, by rwa [List.append_nil], by simp⟩
    · cases failed
    · rw [entryKind_unfollowed, Except.ok.injEq] at entered
      have arrived := located entered listing listed
      obtain ⟨mode, rfl⟩ := item.kind_eq_directory_iff.mp entered
      rw [disk.list_of_locate path place mode arrived held] at listed
      split at listed
      next =>
        cases listed
        obtain ⟨child, heldChild, rfl⟩ := (tree.mem_children place name next).mp entry
        have onward : child.kind = .directory → ∀ listing,
            disk.list (path.joined name) = .ok listing →
            disk.locate true (path.joined name) = .ok (place ++ [name]) := by
          intro directory listing listed
          obtain ⟨childMode, rfl⟩ := child.kind_eq_directory_iff.mp directory
          exact disk.locate_joined_of_list tree path place name childMode arrived heldChild listing
            listed
        obtain ⟨names, found, rfl, within, heldFound, above⟩ :=
          ih fewer (Nat.lt_succ_self fewer) _ _ (place ++ [name]) child heldChild onward below
        refine ⟨name :: names, found, rfl, by simpa using within, by simpa using heldFound, ?_⟩
        intro front last cut
        cases front with
        | nil => simpa [Path.below] using arrived
        | cons first front =>
          obtain ⟨rfl, rest⟩ := List.cons.inj cut
          simpa [Path.below_cons] using above front last rest
      next => cases listed

/-- From the root down through directories to an entry of the name, which may still be a link. -/
structure FoundDown (disk : Disk) (config : Config) (base : Location) (path : Path)
    (names : List Name) (place : Location) : Prop where
  spelled : path = config.root.below (names ++ [config.targetName])
  within : names.length + 1 ≤ config.maxDepth.toNat
  located : disk.locate true (config.root.below names) = .ok (base ++ names)
  directories : ∀ above, above <+: names →
    ∃ mode, disk.item? (base ++ above) = some (.directory mode)
  regular : ∃ mode data, disk.status path = .ok (place, .file mode data)
  inside : base <+: place
  itself : place = base ++ (names ++ [config.targetName]) ∨
    ∃ target, disk.item? (base ++ (names ++ [config.targetName])) = some (.link target)

section Unfollowed

variable (config : Config) (disk : Disk) (patterns : List Glob.Pattern) (tree : disk.Tree)
  (unfollowed : config.followLinks = false) (base : Location) (rootMode : Mode)
  (standing : disk.status config.root = .ok (base, .directory rootMode))

include tree unfollowed standing

theorem entry_of_mem_walk (path : Path)
    (visited : .ok path ∈ disk.walk config.followLinks config.maxDepth.toNat config.root) :
    ∃ names found, path = config.root.below names ∧ names.length ≤ config.maxDepth.toNat ∧
      disk.item? (base ++ names) = some found ∧
      ∀ above last, names = above ++ [last] →
        disk.locate true (config.root.below above) = .ok (base ++ above) := by
  obtain ⟨located, held⟩ := locate_of_status standing
  rcases disk.walk_of_status config.followLinks config.maxDepth.toNat config.root base rootMode
    standing with ⟨-, fails⟩ | enters
  · simp [fails] at visited
  · rw [enters, unfollowed] at visited
    exact disk.entry_of_mem_visits tree _ [] config.root base (.directory rootMode) held
      (fun _ _ _ => located) path visited

theorem foundDown_of_mem_discover (path : Path)
    (member : path ∈ (disk.discover config patterns).files) :
    ∃ names place, disk.FoundDown config base path names place := by
  obtain ⟨reached, canonical, visited, inspected⟩ :=
    disk.of_mem_discover config patterns path member
  obtain ⟨-, named, regular, ⟨place, resolved, inside⟩, -⟩ :=
    (disk.inspect_eq_routeFile_iff config patterns reached _ path).mp inspected
  obtain rfl := disk.canonical_eq_of_locate config.root base reached
    (locate_of_status standing).1 canonical
  obtain ⟨names, found, rfl, within, held, way⟩ :=
    entry_of_mem_walk config disk tree unfollowed reached rootMode standing path visited
  obtain ⟨-, filled, -, -⟩ := locate_eq_ok_iff.mp (locate_of_status standing).1
  rcases List.eq_nil_or_concat names with rfl | ⟨names, last, rfl⟩
  · simp [Path.below, isFile, standing] at regular
  rw [List.concat_eq_append] at *
  have proper := tree.proper_of_item? held
  rw [Path.fileName?_below _ filled names last
    fun name member => proper name (List.mem_append_right _ member), Option.some.injEq] at named
  subst named
  have located := way names _ rfl
  obtain ⟨other, mode, data, file⟩ : ∃ other mode data,
      disk.status (config.root.below (names ++ [config.targetName])) =
        .ok (other, .file mode data) := by
    unfold isFile at regular
    split at regular
    next other mode data file => exact ⟨other, mode, data, file⟩
    next => cases regular
  obtain rfl := disk.canonical_eq_of_locate _ other place (locate_of_status file).1 resolved
  refine ⟨names, place, rfl, by simpa using within, located, ?_, ⟨mode, data, file⟩, inside, ?_⟩
  · rintro above ⟨later, rfl⟩
    have below : disk.item? (reached ++ above ++ (later ++ [config.targetName])) = some found := by
      simpa using held
    exact tree.exists_above below (by simp)
  · cases found with
    | link target => exact .inr ⟨target, held⟩
    | file _ _ | directory _ =>
      left
      rw [← List.append_assoc] at held
      obtain ⟨parentMode, parent⟩ := tree.exists_parent held
      have step := disk.locate_joined _ _ parentMode config.targetName _ located parent held
        (by simp [Item.kind]) (proper _ (by simp))
      rw [← Path.below_concat, (locate_of_status file).1] at step
      split at step
      next => cases step
      next => split at step <;> cases step; simp

end Unfollowed

theorem unfollowed_discovery (config : Config) (disk : Disk) (patterns : List Glob.Pattern)
    (tree : disk.Tree) (valid : config.validate disk = .ok patterns)
    (unfollowed : config.followLinks = false) :
    ∃ base, disk.locate true config.root = .ok base ∧
      (∀ path ∈ (disk.discover config patterns).files,
        ∃ names place, disk.FoundDown config base path names place) ∧
      ∃ progress, disk.migrate config = .ok progress ∧
        ∀ place, progress.disk.item? place ≠ disk.item? place →
          ∃ entry ∈ progress.report.entries, (∃ missing, entry.outcome = .updated missing) ∧
            ∃ names, disk.FoundDown config base entry.path names place := by
  obtain ⟨base, rootMode, standing⟩ := root_of_valid config disk patterns valid
  have found := foundDown_of_mem_discover config disk patterns tree unfollowed base rootMode standing
  refine ⟨base, (locate_of_status standing).1, found, _,
    disk.migrate_eq_completed config patterns valid, ?_⟩
  intro place changed
  obtain ⟨entry, member, updated, listed, -, mode, data, file⟩ :=
    entry_of_changed config disk _ place changed
  obtain ⟨names, other, down⟩ := found entry.path listed
  obtain ⟨otherMode, otherData, regular⟩ := down.regular
  cases file.symm.trans regular
  refine ⟨entry, ?_, updated, names, down⟩
  rw [entries_completed]
  exact List.mem_append_right _ member

def renamed : Disk where
  items :=
    [([], .directory {}), (placeOf ["api"], .directory {}),
      (placeOf ["api", "a"], .directory {}),
      (placeOf ["api", "a", "handler.ts"], .file {} (Utf8.encode "import x\nfetch(u)".toList)),
      (placeOf ["api", "b"], .directory {}),
      (placeOf ["api", "b", "route.ts"], .link (Path.ofText "../a/handler.ts".toList))]
  workingDirectory := []

theorem tree_renamed : renamed.Tree :=
  ⟨by decide +kernel, by decide +kernel, by decide +kernel⟩

theorem unfollowed_discovery_renamed :
    renamed.Tree ∧ Config.validate { root := Path.ofText "api".toList } renamed = .ok [] ∧
    Path.ofText "api/b/route.ts".toList ∈
      (renamed.discover { root := Path.ofText "api".toList } []).files ∧
    ∃ names place, renamed.FoundDown { root := Path.ofText "api".toList } (placeOf ["api"])
      (Path.ofText "api/b/route.ts".toList) names place := by
  have valid : Config.validate { root := Path.ofText "api".toList } renamed = .ok [] := by rfl
  have listed : Path.ofText "api/b/route.ts".toList ∈
      (renamed.discover { root := Path.ofText "api".toList } []).files := by decide +kernel
  obtain ⟨base, located, found, -⟩ :=
    unfollowed_discovery { root := Path.ofText "api".toList } renamed [] tree_renamed valid rfl
  have root : renamed.locate true (Path.ofText "api".toList) = .ok (placeOf ["api"]) := by rfl
  cases root.symm.trans located
  exact ⟨tree_renamed, valid, listed, found _ listed⟩

-- The file test asks what the link leads to, and so does writing.
theorem rewritten_through_link :
    renamed.Tree ∧ Config.validate { root := Path.ofText "api".toList } renamed = .ok [] ∧
    Path.ofText "api/b/route.ts".toList ∈
      (renamed.discover { root := Path.ofText "api".toList } []).files ∧
    renamed.kindAt (Path.ofText "api/b/route.ts".toList) = .ok .link ∧
    ∃ progress, renamed.migrate { root := Path.ofText "api".toList } = .ok progress ∧
      progress.disk.item? (placeOf ["api", "a", "handler.ts"]) ≠
        renamed.item? (placeOf ["api", "a", "handler.ts"]) := by
  refine ⟨tree_renamed, by rfl, by decide +kernel, by rfl, _, rfl, ?_⟩
  decide +kernel

end Disk

end RouteMigration
