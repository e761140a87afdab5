import RouteMigration.Proofs.Migration.WalkCoverage
import RouteMigration.Proofs.Path.Ordering

set_option autoImplicit false

namespace RouteMigration

namespace Disk

section Discovered

variable (config : Config) (disk : Disk) (patterns : List Glob.Pattern)

theorem below_of_visit (tree : disk.Tree) (visit : Visit)
    (member : visit ∈ disk.walk config.followLinks config.maxDepth.toNat config.root) (path : Path)
    (about : Visit.path? visit = some path) :
    ∃ names, (∀ name ∈ names, name.Proper) ∧ path = config.root.below names := by
  unfold walk at member
  split at member
  next cause unseen =>
    rw [List.mem_singleton] at member
    subst member
    exact ⟨[], by simp, (Option.some.inj about).symm⟩
  next => exact disk.below_of_mem_visits tree _ _ _ _ _ visit member path about

theorem below_of_mem_walk (tree : disk.Tree) (path : Path)
    (visited : .ok path ∈ disk.walk config.followLinks config.maxDepth.toNat config.root) :
    ∃ names, (∀ name ∈ names, name.Proper) ∧ path = config.root.below names :=
  below_of_visit config disk tree (.ok path) visited path rfl

theorem eq_of_visited (tree : disk.Tree) (filled : config.root.octets ≠ []) (first second : Path)
    (firstVisited : .ok first ∈ disk.walk config.followLinks config.maxDepth.toNat config.root)
    (secondVisited : .ok second ∈ disk.walk config.followLinks config.maxDepth.toNat config.root)
    (same : first.components = second.components) : first = second := by
  obtain ⟨names, proper, rfl⟩ := below_of_mem_walk config disk tree first firstVisited
  obtain ⟨others, properOthers, rfl⟩ := below_of_mem_walk config disk tree second secondVisited
  rw [config.root.below_inj filled names others proper properOthers same]

theorem mem_files_of_inspect (tree : disk.Tree) (base : Location)
    (reached : disk.canonical config.root = .ok base) (path : Path)
    (visited : .ok path ∈ disk.walk config.followLinks config.maxDepth.toNat config.root)
    (found : disk.inspect config patterns base (.ok path) = .routeFile path) :
    path ∈ (disk.discover config patterns).files := by
  simp only [discover, reached]
  rw [Path.mem_sorted_iff]
  · exact (disk.mem_routeFiles_iff config patterns base _ path).mpr ⟨visited, found⟩
  · intro first firstIn second secondIn same
    obtain ⟨firstVisited, -⟩ := (disk.mem_routeFiles_iff config patterns base _ first).mp firstIn
    obtain ⟨secondVisited, -⟩ := (disk.mem_routeFiles_iff config patterns base _ second).mp secondIn
    exact eq_of_visited config disk tree (filled_of_canonical reached) first second firstVisited
      secondVisited same

theorem inspected_of_visited (tree : disk.Tree) (base : Location)
    (reached : disk.canonical config.root = .ok base) (path : Path) (place : Location)
    (visited : .ok path ∈ disk.walk config.followLinks config.maxDepth.toNat config.root)
    (named : path.fileName? = some config.targetName)
    (located : disk.locate true path = .ok place) (inside : base <+: place)
    (regular : disk.isFile path = true) :
    path ∈ (disk.discover config patterns).files ∨ isExcluded patterns path = true ∨
      ∃ error ∈ (disk.discover config patterns).errors, error.file = path := by
  by_cases excluded : isExcluded patterns path = true
  · exact .inr (.inl excluded)
  rw [Bool.not_eq_true] at excluded
  cases canonical : disk.canonical path with
  | ok resolved =>
    left
    obtain rfl := disk.canonical_eq_of_locate path place resolved located canonical
    apply mem_files_of_inspect config disk patterns tree base reached path visited
    exact (disk.inspect_eq_routeFile_iff config patterns base _ path).mpr
      ⟨rfl, named, regular, ⟨resolved, canonical, inside⟩, excluded⟩
  | error cause =>
    refine .inr (.inr ⟨unresolvedFailure path cause, ?_, rfl⟩)
    simp only [discover, reached, List.mem_filterMap, List.mem_map]
    refine ⟨_, ⟨_, visited, rfl⟩, ?_⟩
    simp [inspect, named, regular, canonical, Finding.error?]

theorem reported_of_walk (base : Location) (reached : disk.canonical config.root = .ok base)
    (error : WalkError)
    (failed : .error error ∈ disk.walk config.followLinks config.maxDepth.toNat config.root) :
    ∃ entry ∈ (disk.discover config patterns).errors,
      entry.file = error.path?.getD config.root := by
  refine ⟨walkFailure config.root error, ?_, rfl⟩
  simp only [discover, reached, List.mem_filterMap, List.mem_map]
  exact ⟨_, ⟨_, failed, rfl⟩, rfl⟩

theorem exists_standing (path : Path) (directory : disk.isDirectory path = true) :
    ∃ base mode, disk.status path = .ok (base, .directory mode) := by
  unfold isDirectory at directory
  split at directory
  next base mode standing => exact ⟨base, mode, standing⟩
  next => cases directory

theorem root_of_valid (valid : config.validate disk = .ok patterns) :
    ∃ base mode, disk.status config.root = .ok (base, .directory mode) := by
  have directory : disk.isDirectory config.root = true := by
    unfold Config.validate at valid
    split at valid
    next => cases valid
    next =>
      split at valid
      next => cases valid
      next =>
        split at valid
        next => cases valid
        next directory => simpa using directory
  exact disk.exists_standing config.root directory

theorem discovered_or_reported (tree : disk.Tree) (valid : config.validate disk = .ok patterns)
    (base : Location) (located : disk.locate true config.root = .ok base) (names : List Name)
    (mode : Mode) (data : ByteArray)
    (held : disk.item? (base ++ (names ++ [config.targetName])) = some (.file mode data))
    (within : names.length + 1 ≤ config.maxDepth.toNat)
    (searchable : ∀ mode, disk.item? (base ++ names) = some (.directory mode) →
      mode.searchable = true)
    (short : (config.root.below (names ++ [config.targetName])).octets.length ≤ pathLimit) :
    config.root.below (names ++ [config.targetName]) ∈ (disk.discover config patterns).files ∨
      isExcluded patterns (config.root.below (names ++ [config.targetName])) = true ∨
      ∃ error ∈ (disk.discover config patterns).errors,
        ∃ above, above <+: names ++ [config.targetName] ∧
          error.file = config.root.below above := by
  obtain ⟨_, rootMode, standing⟩ := root_of_valid config disk patterns valid
  cases located.symm.trans (locate_of_status standing).1
  cases reached : disk.canonical config.root with
  | error cause =>
    refine .inr (.inr ⟨unresolvedRootFailure config.root cause, ?_, [], List.nil_prefix, rfl⟩)
    simp [discover, reached]
  | ok resolved =>
    obtain rfl := disk.canonical_eq_of_locate config.root base resolved located reached
    rcases disk.walk_of_status config.followLinks config.maxDepth.toNat config.root resolved
      rootMode standing with ⟨-, fails⟩ | enters
    · obtain ⟨entry, recorded, file⟩ := reported_of_walk config disk patterns resolved reached
        (.access none .permissionDenied) (by simp [fails])
      exact .inr (.inr ⟨entry, recorded, [], List.nil_prefix, file⟩)
    rcases disk.visited_or_failed tree config.followLinks config.maxDepth.toNat [] config.root
      resolved names config.targetName _ located held (by simp [Item.kind]) within with
      ⟨above, inside, cause, failed⟩ | ⟨visited, directoryLocated⟩
    · rw [← enters] at failed
      obtain ⟨entry, recorded, file⟩ :=
        reported_of_walk config disk patterns resolved reached _ failed
      exact .inr (.inr ⟨entry, recorded, above, inside.trans (List.prefix_append _ _), file⟩)
    rw [← enters, Path.below_concat] at visited
    rw [Path.below_concat] at short ⊢
    rw [← List.append_assoc] at held
    have file := tree.status_joined _ _ config.targetName _ directoryLocated held
      (by simp [Item.kind]) searchable short
    obtain ⟨-, filled, -, -⟩ := locate_eq_ok_iff.mp directoryLocated
    have named := Path.fileName?_joined _ filled config.targetName
      (tree.proper_of_item? held _ (by simp))
    have insideRoot : resolved <+: resolved ++ names ++ [config.targetName] := by
      rw [List.append_assoc]
      exact List.prefix_append _ _
    rcases inspected_of_visited config disk patterns tree resolved reached _ _
      visited named (locate_of_status file).1 insideRoot (by simp [isFile, file]) with
      found | excluded | ⟨error, recorded, same⟩
    · exact .inl found
    · exact .inr (.inl excluded)
    · refine .inr (.inr ⟨error, recorded, _, List.prefix_refl _, ?_⟩)
      rw [same, Path.below_concat]

end Discovered

def nested (mode : Mode) : Disk where
  items :=
    [([], .directory {}), ([nameOf "api"], .directory {}),
      ([nameOf "api", nameOf "sub"], .directory mode),
      ([nameOf "api", nameOf "sub", nameOf "route.ts"],
        .file {} (Utf8.encode "import x\nfetch(u)".toList))]
  workingDirectory := []

def nestedConfig : Config :=
  { root := Path.ofText "api".toList }

theorem discovered_or_reported_unlisted :
    (nested { readable := false }).Tree ∧
    nestedConfig.validate (nested { readable := false }) = .ok [] ∧
    ((nested { readable := false }).discover nestedConfig []).files = [] ∧
    ∃ error ∈ ((nested { readable := false }).discover nestedConfig []).errors,
      ∃ above, above <+: [nameOf "sub", nameOf "route.ts"] ∧
        error.file = nestedConfig.root.below above := by
  have tree : (nested { readable := false }).Tree :=
    ⟨by decide +kernel, by decide +kernel, by decide +kernel⟩
  have valid : nestedConfig.validate (nested { readable := false }) = .ok [] := by rfl
  have none : ((nested { readable := false }).discover nestedConfig []).files = [] := by rfl
  rcases discovered_or_reported nestedConfig (nested { readable := false }) [] tree valid
    [nameOf "api"] (by rfl) [nameOf "sub"] {} (Utf8.encode "import x\nfetch(u)".toList) (by rfl)
    (by decide) (by rintro mode ⟨⟩; rfl) (by decide +kernel) with found | excluded | reported
  · rw [none] at found
    cases found
  · cases excluded
  · exact ⟨tree, valid, none, reported⟩

-- Its directory can be listed, but what it holds cannot be looked up.
theorem unnoticed_file :
    (nested { searchable := false }).Tree ∧
    nestedConfig.validate (nested { searchable := false }) = .ok [] ∧
    (nested { searchable := false }).locate true nestedConfig.root = .ok [nameOf "api"] ∧
    (∃ mode data, (nested { searchable := false }).item?
      [nameOf "api", nameOf "sub", nestedConfig.targetName] = some (.file mode data)) ∧
    ((nested { searchable := false }).discover nestedConfig []).files = [] ∧
    ((nested { searchable := false }).discover nestedConfig []).errors = [] :=
  ⟨⟨by decide +kernel, by decide +kernel, by decide +kernel⟩, by rfl, by rfl, ⟨_, _, by rfl⟩,
    by rfl, by rfl⟩

end Disk

end RouteMigration
