import RouteMigration.Proofs.Disk.OpenWay
import RouteMigration.Proofs.Migration.Coverage

set_option autoImplicit false

namespace RouteMigration

namespace Disk

/-- No links, directories that can be listed and searched, and no path too long to be looked up. -/
structure Plain (disk : Disk) (config : Config) (base : Location) : Prop where
  tree : disk.Tree
  unlinked : disk.Unlinked
  located : disk.locate true config.root = .ok base
  searchable : ∀ place mode, disk.item? place = some (.directory mode) →
    place <+: base ∨ base <+: place → mode.searchable = true
  readable : ∀ place mode, disk.item? place = some (.directory mode) → base <+: place →
    mode.readable = true
  shortRoot : (config.root.absolute disk.workingDirectory).octets.length ≤ pathLimit
  shortDirectory : ∀ names mode, names.length < config.maxDepth.toNat →
    disk.item? (base ++ names) = some (.directory mode) →
    (config.root.below names).octets.length ≤ pathLimit
  shortFile : ∀ names mode data, names.length < config.maxDepth.toNat →
    disk.item? (base ++ (names ++ [config.targetName])) = some (.file mode data) →
    (config.root.below (names ++ [config.targetName])).octets.length ≤ pathLimit ∧
      ((config.root.below (names ++ [config.targetName])).absolute
        disk.workingDirectory).octets.length ≤ pathLimit

def LeadsDown (disk : Disk) (root : Path) (base : Location) (names : List Name) : Prop :=
  (root.below names).octets.length ≤ pathLimit →
    disk.locate true (root.below names) = .ok (base ++ names)

namespace Plain

variable {disk : Disk} {config : Config} {base : Location} (plain : disk.Plain config base)

include plain

theorem openTo_below (names : List Name) : disk.OpenTo (base ++ names) := by
  intro above mode within held
  exact plain.searchable above mode held
    (List.prefix_or_prefix_of_prefix within (List.prefix_append base names))

theorem leadsDown_nil : disk.LeadsDown config.root base [] := by
  intro _
  rw [List.append_nil]
  exact plain.located

theorem leadsDown_concat (names : List Name) (last : Name) (item : Item)
    (located : disk.locate true (config.root.below names) = .ok (base ++ names))
    (held : disk.item? (base ++ (names ++ [last])) = some item) :
    disk.LeadsDown config.root base (names ++ [last]) := by
  intro short
  rw [Path.below_concat] at short ⊢
  rw [← List.append_assoc] at held ⊢
  have standing := plain.tree.status_joined _ _ last item located held
    (plain.unlinked.kind_ne_link held)
    (fun mode directory =>
      plain.searchable _ mode directory (.inr (List.prefix_append base names))) short
  exact (locate_of_status standing).1

theorem visit_below (followLinks : Bool) (fewer : Nat) (ancestors : List Ancestor)
    (names : List Name) (item : Item) (held : disk.item? (base ++ names) = some item)
    (leads : disk.LeadsDown config.root base names)
    (within : names.length + fewer ≤ config.maxDepth.toNat) (visit : Visit)
    (member :
      visit ∈ disk.visits followLinks fewer ancestors (config.root.below names) item.kind) :
    ∃ others found, visit = .ok (config.root.below others) ∧
      others.length ≤ config.maxDepth.toNat ∧ disk.item? (base ++ others) = some found ∧
      disk.LeadsDown config.root base others := by
  induction fewer using Nat.strongRecOn generalizing ancestors names item with
  | _ fewer ih =>
    have seen : disk.entryKind followLinks ancestors (config.root.below names) item.kind =
        .ok item.kind := by
      simp [entryKind, plain.unlinked.kind_ne_link held]
    rcases disk.visits_cases followLinks fewer ancestors _ _ visit member with
      ⟨error, failed, -⟩ | rfl | ⟨fewer, rfl, entered, below⟩
    · rw [seen] at failed
      cases failed
    · exact ⟨names, item, rfl, by omega, held, leads⟩
    · rw [seen, Except.ok.injEq, Item.kind_eq_directory_iff] at entered
      obtain ⟨mode, rfl⟩ := entered
      have located := leads (plain.shortDirectory names mode (by omega) held)
      have listed := disk.list_of_locate _ _ mode located held
      rw [if_pos (plain.readable _ mode held (List.prefix_append base names))] at listed
      rcases below with ⟨cause, unlisted, -⟩ | ⟨listing, name, next, listed', entry, visited⟩
      · rw [listed] at unlisted
        cases unlisted
      · rw [listed] at listed'
        cases listed'
        obtain ⟨child, heldChild, rfl⟩ := (plain.tree.mem_children _ name next).mp entry
        rw [List.append_assoc] at heldChild
        rw [← Path.below_concat] at visited
        have length : (names ++ [name]).length = names.length + 1 := by simp
        exact ih fewer (Nat.lt_succ_self fewer) _ (names ++ [name]) child heldChild
          (plain.leadsDown_concat names name child located heldChild) (by omega) visited

theorem walk_below (mode : Mode)
    (standing : disk.status config.root = .ok (base, .directory mode)) (followLinks : Bool)
    (visit : Visit) (member : visit ∈ disk.walk followLinks config.maxDepth.toNat config.root) :
    ∃ names item, visit = .ok (config.root.below names) ∧
      names.length ≤ config.maxDepth.toNat ∧ disk.item? (base ++ names) = some item ∧
      disk.LeadsDown config.root base names := by
  have kind : disk.rootKind followLinks config.root = .ok .directory := by
    simp [rootKind, disk.kindAt_of_status plain.unlinked config.root base _ standing, Item.kind]
  simp only [walk, kind] at member
  have held : disk.item? (base ++ []) = some (.directory mode) := by
    rw [List.append_nil]
    exact (locate_of_status standing).2
  exact plain.visit_below followLinks _ [] [] (.directory mode) held plain.leadsDown_nil (by simp)
    visit member

theorem visited_of_held (mode : Mode)
    (standing : disk.status config.root = .ok (base, .directory mode)) (followLinks : Bool)
    (names : List Name) (fileMode : Mode) (data : ByteArray)
    (held : disk.item? (base ++ (names ++ [config.targetName])) = some (.file fileMode data))
    (within : names.length < config.maxDepth.toNat) :
    .ok (config.root.below (names ++ [config.targetName])) ∈
        disk.walk followLinks config.maxDepth.toNat config.root ∧
      disk.locate true (config.root.below (names ++ [config.targetName])) =
        .ok (base ++ (names ++ [config.targetName])) := by
  have succeeds (error : WalkError) :
      .error error ∉ disk.walk followLinks config.maxDepth.toNat config.root := by
    intro failed
    obtain ⟨_, _, none, -⟩ := plain.walk_below mode standing followLinks _ failed
    cases none
  rcases disk.walk_of_status followLinks config.maxDepth.toNat config.root base mode standing with
    ⟨-, fails⟩ | enters
  · exact absurd (by simp [fails]) (succeeds (.access none .permissionDenied))
  rcases disk.visited_or_failed plain.tree followLinks config.maxDepth.toNat [] config.root base
    names config.targetName _ plain.located held (plain.unlinked.kind_ne_link held) within with
    ⟨above, -, cause, failed⟩ | ⟨visited, located⟩
  · rw [← enters] at failed
    exact absurd failed (succeeds _)
  · rw [← enters] at visited
    exact ⟨visited, plain.leadsDown_concat names config.targetName _ located held
      (plain.shortFile names fileMode data within held).1⟩

theorem file_of_isFile (mode : Mode)
    (standing : disk.status config.root = .ok (base, .directory mode)) (names : List Name)
    (item : Item) (held : disk.item? (base ++ names) = some item)
    (leads : disk.LeadsDown config.root base names)
    (named : (config.root.below names).fileName? = some config.targetName)
    (regular : disk.isFile (config.root.below names) = true) :
    ∃ above fileMode data, names = above ++ [config.targetName] ∧
      disk.item? (base ++ (above ++ [config.targetName])) = some (.file fileMode data) ∧
      disk.locate true (config.root.below (above ++ [config.targetName])) =
        .ok (base ++ (above ++ [config.targetName])) := by
  obtain ⟨-, filled, -, -⟩ := locate_eq_ok_iff.mp plain.located
  rcases List.eq_nil_or_concat names with rfl | ⟨above, last, rfl⟩
  · simp [Path.below, isFile, standing] at regular
  rw [List.concat_eq_append] at *
  have last : last = config.targetName := by
    rw [Path.fileName?_below _ filled above last fun other member =>
      plain.tree.proper_of_item? held other (List.mem_append_right _ member)] at named
    exact Option.some.inj named
  subst last
  unfold isFile at regular
  split at regular
  next place fileMode data found =>
    obtain ⟨located, file⟩ := locate_of_status found
    obtain ⟨-, -, short, -⟩ := locate_eq_ok_iff.mp located
    have arrived := leads short
    cases arrived.symm.trans located
    exact ⟨above, fileMode, data, rfl, file, located⟩
  next => cases regular

theorem canonical_root : disk.canonical config.root = .ok base := by
  have opens := plain.openTo_below []
  rw [List.append_nil] at opens
  exact disk.canonical_of_locate plain.unlinked plain.tree _ _ plain.located opens plain.shortRoot

theorem canonical_file (names : List Name) (mode : Mode) (data : ByteArray)
    (within : names.length < config.maxDepth.toNat)
    (held : disk.item? (base ++ (names ++ [config.targetName])) = some (.file mode data))
    (located : disk.locate true (config.root.below (names ++ [config.targetName])) =
      .ok (base ++ (names ++ [config.targetName]))) :
    disk.canonical (config.root.below (names ++ [config.targetName])) =
      .ok (base ++ (names ++ [config.targetName])) :=
  disk.canonical_of_locate plain.unlinked plain.tree _ _ located (plain.openTo_below _)
    (plain.shortFile names mode data within held).2

end Plain

theorem Plain.of_perm {disk other : Disk} {config : Config} {base : Location}
    (plain : disk.Plain config base) (items : other.items.Perm disk.items)
    (workingDirectory : other.workingDirectory = disk.workingDirectory) :
    other.Plain config base := by
  have same := plain.tree.item?_of_perm items
  refine ⟨plain.tree.of_perm items, ?_, ?_, ?_, ?_, ?_, ?_, ?_⟩
  · intro place target
    rw [same]
    exact plain.unlinked place target
  · rw [locate_congr_item? same workingDirectory]
    exact plain.located
  · intro place mode
    rw [same]
    exact plain.searchable place mode
  · intro place mode
    rw [same]
    exact plain.readable place mode
  · rw [workingDirectory]
    exact plain.shortRoot
  · intro names mode
    rw [same]
    exact plain.shortDirectory names mode
  · intro names mode data
    rw [same, workingDirectory]
    exact plain.shortFile names mode data

section Discovery

variable {disk : Disk} {config : Config} {base : Location} (plain : disk.Plain config base)
  (mode : Mode) (standing : disk.status config.root = .ok (base, .directory mode))
  (patterns : List Glob.Pattern)

include plain standing

theorem Plain.errors_discover : (disk.discover config patterns).errors = [] := by
  simp only [discover, plain.canonical_root, List.filterMap_eq_nil_iff, List.mem_map]
  rintro _ ⟨visit, visited, rfl⟩
  obtain ⟨names, item, rfl, within, held, leads⟩ := plain.walk_below mode standing _ visit visited
  simp only [inspect]
  split
  next => rfl
  next wanted =>
    rw [not_or, Classical.not_not, Bool.not_eq_false] at wanted
    obtain ⟨above, fileMode, data, rfl, file, located⟩ :=
      plain.file_of_isFile mode standing names item held leads wanted.1 wanted.2
    rw [List.length_append, List.length_singleton] at within
    have inside := List.isPrefixOf_iff_prefix.mpr
      (List.prefix_append base (above ++ [config.targetName]))
    rw [plain.canonical_file above fileMode data within file located]
    simp only [inside, Bool.not_true, Bool.false_eq_true, if_false]
    split <;> rfl

theorem Plain.mem_discover_iff (path : Path) :
    path ∈ (disk.discover config patterns).files ↔ ∃ names fileMode data,
      path = config.root.below (names ++ [config.targetName]) ∧
      names.length + 1 ≤ config.maxDepth.toNat ∧
      disk.item? (base ++ (names ++ [config.targetName])) = some (.file fileMode data) ∧
      isExcluded patterns path = false := by
  constructor
  · intro member
    obtain ⟨reached, _, visited, inspected⟩ := disk.of_mem_discover config patterns path member
    obtain ⟨-, named, regular, -, included⟩ :=
      (disk.inspect_eq_routeFile_iff config patterns reached _ path).mp inspected
    obtain ⟨names, item, same, within, held, leads⟩ := plain.walk_below mode standing _ _ visited
    cases same
    obtain ⟨above, fileMode, data, rfl, file, -⟩ :=
      plain.file_of_isFile mode standing names item held leads named regular
    exact ⟨above, fileMode, data, rfl, by simpa using within, file, included⟩
  · rintro ⟨names, fileMode, data, rfl, within, held, included⟩
    obtain ⟨-, filled, -, -⟩ := locate_eq_ok_iff.mp plain.located
    obtain ⟨visited, located⟩ :=
      plain.visited_of_held mode standing config.followLinks names fileMode data held within
    have proper : ∀ name ∈ names ++ [config.targetName], name.Proper := fun name member =>
      plain.tree.proper_of_item? held name (List.mem_append_right _ member)
    have canonical := plain.canonical_file names fileMode data within held located
    apply mem_files_of_inspect config disk patterns plain.tree base plain.canonical_root _ visited
    exact (disk.inspect_eq_routeFile_iff config patterns base _ _).mpr
      ⟨rfl, Path.fileName?_below _ filled _ _ proper,
        by simp [isFile, status_of_locate located held],
        ⟨_, canonical, List.prefix_append _ _⟩, included⟩

theorem Plain.discover_eq {other : Disk} (followLinks : Bool) (items : other.items.Perm disk.items)
    (workingDirectory : other.workingDirectory = disk.workingDirectory) :
    other.discover { config with followLinks } patterns = disk.discover config patterns := by
  have permuted := plain.of_perm items workingDirectory
  have plainOther : other.Plain { config with followLinks } base :=
    ⟨permuted.tree, permuted.unlinked, permuted.located, permuted.searchable, permuted.readable,
      permuted.shortRoot, permuted.shortDirectory, permuted.shortFile⟩
  have held := plain.tree.item?_of_perm items
  have standingOther : other.status { config with followLinks }.root =
      .ok (base, .directory mode) :=
    status_of_locate plainOther.located (by rw [held, (locate_of_status standing).2])
  have errors := plainOther.errors_discover mode standingOther patterns
  have files : (other.discover { config with followLinks } patterns).files =
      (disk.discover config patterns).files := by
    apply Path.eq_of_increasing
    · exact other.increasing_discover _ patterns
    · exact disk.increasing_discover config patterns
    · intro path
      rw [plainOther.mem_discover_iff mode standingOther, plain.mem_discover_iff mode standing]
      simp only [held, Config.targetName]
  have none := plain.errors_discover mode standing patterns
  exact congrArg₂ Discovery.mk files (errors.trans none.symm)

end Discovery

end Disk

theorem isExcluded_eq_false_iff (patterns : List Glob.Pattern) (path : Path) (name : Name)
    (named : path.fileName? = some name) : isExcluded patterns path = false ↔
      ∀ pattern ∈ patterns, pattern.matchesText path.shown = false ∧
        pattern.matchesText (Utf8.lossy name) = false := by
  simp [isExcluded, named]

namespace Disk

theorem discovery_exact (config : Config) (disk : Disk) (patterns : List Glob.Pattern)
    (valid : config.validate disk = .ok patterns) (base : Location)
    (plain : disk.Plain config base) :
    (disk.discover config patterns).errors = [] ∧
    (∀ path, path ∈ (disk.discover config patterns).files ↔ ∃ names mode data,
      path = config.root.below (names ++ [config.targetName]) ∧
      names.length + 1 ≤ config.maxDepth.toNat ∧
      disk.item? (base ++ (names ++ [config.targetName])) = some (.file mode data) ∧
      ∀ pattern ∈ patterns, pattern.matchesText path.shown = false ∧
        pattern.matchesText (Utf8.lossy config.targetName) = false) ∧
    (disk.discover config patterns).files.Nodup ∧
    Path.Increasing (disk.discover config patterns).files ∧
    ∀ (other : Disk) (followLinks : Bool), other.items.Perm disk.items →
      other.workingDirectory = disk.workingDirectory →
      other.discover { config with followLinks } patterns = disk.discover config patterns := by
  obtain ⟨_, rootMode, standing⟩ := root_of_valid config disk patterns valid
  cases plain.located.symm.trans (locate_of_status standing).1
  obtain ⟨-, filled, -, -⟩ := locate_eq_ok_iff.mp plain.located
  have increasing := disk.increasing_discover config patterns
  refine ⟨plain.errors_discover rootMode standing patterns, ?_,
    Path.nodup_of_increasing _ increasing, increasing, ?_⟩
  · intro path
    rw [plain.mem_discover_iff rootMode standing]
    refine exists_congr fun names => exists_congr fun mode => exists_congr fun data => ?_
    refine and_congr_right fun same => and_congr_right fun _ => and_congr_right fun held => ?_
    apply isExcluded_eq_false_iff
    rw [same]
    exact Path.fileName?_below _ filled names config.targetName
      fun name member => plain.tree.proper_of_item? held name (List.mem_append_right _ member)
  · intro other followLinks items workingDirectory
    exact plain.discover_eq rootMode standing patterns followLinks items workingDirectory

def spelledConfig : Config :=
  { root := Path.ofText "./api//".toList }

theorem plain_nested : (nested {}).Plain spelledConfig [nameOf "api"] := by
  have tree : (nested {}).Tree := ⟨by decide +kernel, by decide +kernel, by decide +kernel⟩
  have plainItems : ∀ entry ∈ (nested {}).items, entry.2.kind ≠ .link ∧
      (entry.2.kind = .directory → entry.2 = .directory {}) := by decide +kernel
  have plainItem (place : Location) (item : Item) (held : (nested {}).item? place = some item) :
      item.kind ≠ .link ∧ (item.kind = .directory → item = .directory {}) :=
    plainItems (place, item) ((tree.item?_eq_some_iff place item).mp held)
  have places : ∀ place ∈ (nested {}).items.map Prod.fst, [nameOf "api"] <+: place →
      (spelledConfig.root.below place.tail).octets.length ≤ pathLimit ∧
        ((spelledConfig.root.below place.tail).absolute []).octets.length ≤ pathLimit := by
    decide +kernel
  have short (names : List Name) (item : Item)
      (held : (nested {}).item? ([nameOf "api"] ++ names) = some item) :=
    places ([nameOf "api"] ++ names)
      (List.mem_map_of_mem ((tree.item?_eq_some_iff _ item).mp held)) (List.prefix_append _ _)
  refine ⟨tree, ?_, by rfl, ?_, ?_, by decide +kernel, ?_, ?_⟩
  · intro place target held
    exact (plainItem place _ held).1 rfl
  · intro place mode held _
    cases (plainItem place _ held).2 rfl
    rfl
  · intro place mode held _
    cases (plainItem place _ held).2 rfl
    rfl
  · exact fun names mode _ held => (short names _ held).1
  · exact fun names mode data _ held => short _ _ held

theorem discovery_exact_nested : spelledConfig.validate (nested {}) = .ok [] ∧
    (nested {}).Plain spelledConfig [nameOf "api"] ∧
    ((nested {}).discover spelledConfig []).errors = [] ∧
    Path.ofText "./api//sub/route.ts".toList ∈ ((nested {}).discover spelledConfig []).files := by
  have valid : spelledConfig.validate (nested {}) = .ok [] := by rfl
  obtain ⟨errors, files, -⟩ :=
    discovery_exact spelledConfig (nested {}) [] valid [nameOf "api"] plain_nested
  refine ⟨valid, plain_nested, errors, (files _).mpr ?_⟩
  exact ⟨[nameOf "sub"], {}, Utf8.encode "import x\nfetch(u)".toList, by rfl, by decide, by rfl,
    by simp⟩

end Disk

end RouteMigration
