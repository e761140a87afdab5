import RouteMigration.Proofs.Disk.Spelling
import RouteMigration.Proofs.Migration.Coverage
import RouteMigration.Proofs.Migration.PublicRoutes

set_option autoImplicit false

namespace RouteMigration

def Path.respelled (first second path : Path) : Path :=
  second.below ((path.components.drop first.components.length).map Component.part)

theorem Path.respelled_below (first second : Path) (filled : first.octets ≠ []) (names : List Name)
    (proper : ∀ name ∈ names, name.Proper) :
    Path.respelled first second (first.below names) = second.below names := by
  have parts : (names.map Component.name).map Component.part = names := by
    rw [List.map_map]
    exact List.map_id names
  rw [respelled, first.components_below filled names proper, List.drop_left, parts]

theorem Path.compare_below (root other : Path) (filled : root.octets ≠ [])
    (otherFilled : other.octets ≠ []) (first second : List Name)
    (firstProper : ∀ name ∈ first, name.Proper) (secondProper : ∀ name ∈ second, name.Proper) :
    (root.below first).compare (root.below second) =
      (other.below first).compare (other.below second) := by
  rw [compare_behind _ _ _ _ _ (root.components_below filled first firstProper)
      (root.components_below filled second secondProper),
    compare_behind _ _ _ _ _ (other.components_below otherFilled first firstProper)
      (other.components_below otherFilled second secondProper)]

namespace Disk

def walked (disk : Disk) (config : Config) (root : Path) : List Path :=
  (disk.walk config.followLinks config.maxDepth.toNat root).filterMap Except.toOption

theorem mem_walked_iff (disk : Disk) (config : Config) (root path : Path) :
    path ∈ disk.walked config root ↔
      .ok path ∈ disk.walk config.followLinks config.maxDepth.toNat root := by
  rw [walked, List.mem_filterMap]
  constructor
  · rintro ⟨visit, visited, kept⟩
    cases visit with
    | error error => cases kept
    | ok other =>
      cases kept
      exact visited
  · exact fun visited => ⟨_, visited, rfl⟩

def FitsBelow (disk : Disk) (config : Config) (first second : Path) : Prop :=
  ∀ path ∈ disk.walked config first,
    path.octets.length ≤ pathLimit ∧ (Path.respelled first second path).octets.length ≤ pathLimit

def ExcludesAlike (disk : Disk) (config : Config) (patterns : List Glob.Pattern)
    (first second : Path) : Prop :=
  ∀ path ∈ disk.walked config first, path.fileName? = some config.targetName →
    disk.isFile path = true →
      isExcluded patterns path = isExcluded patterns (Path.respelled first second path)

section Decidable

variable (disk : Disk) (config : Config) (patterns : List Glob.Pattern) (first second : Path)

instance : Decidable (disk.FitsBelow config first second) :=
  inferInstanceAs (Decidable (∀ path ∈ disk.walked config first, _ ∧ _))

instance : Decidable (disk.ExcludesAlike config patterns first second) :=
  inferInstanceAs (Decidable (∀ path ∈ disk.walked config first, _ → _ → _ = _))

end Decidable

/-- Two paths that the turn of a file cannot tell apart. -/
structure Twins (disk : Disk) (first second : Path) : Prop where
  located : disk.locate true first = disk.locate true second
  absolute : first.absolute disk.workingDirectory = second.absolute disk.workingDirectory
  rulePath : disk.rulePath first = disk.rulePath second

theorem Twins.status {disk : Disk} {first second : Path} (twins : disk.Twins first second) :
    disk.status first = disk.status second := by
  simp only [Disk.status, twins.located]

theorem entryKind_congr (disk : Disk) (followLinks : Bool) (ancestors others : List Ancestor)
    (places : ancestors.map Ancestor.place = others.map Ancestor.place) (path other : Path)
    (standing : disk.status path = disk.status other) (kind seen : Kind)
    (entered : disk.entryKind followLinks ancestors path kind = .ok seen) :
    disk.entryKind followLinks others other kind = .ok seen := by
  unfold entryKind at entered ⊢
  split at entered
  next followed =>
    rw [if_pos followed]
    unfold followedKind at entered ⊢
    rw [← standing]
    split at entered
    next => cases entered
    next place mode found =>
      split at entered
      next => cases entered
      next readable =>
        split at entered
        next => cases entered
        next loopless =>
          have outside : others.find? (fun ancestor => ancestor.place == place) = none := by
            have absent : place ∉ ancestors.map Ancestor.place := by
              simpa [List.find?_eq_none] using loopless
            rw [places] at absent
            simpa [List.find?_eq_none] using absent
          simp only [readable, Bool.false_eq_true, if_false, outside]
          exact entered
    next => exact entered
  next plain =>
    rw [if_neg plain]
    exact entered

theorem exists_entryKind_of_mem (disk : Disk) (followLinks : Bool) (depth : Nat)
    (ancestors : List Ancestor) (path visited : Path) (kind : Kind)
    (member : .ok visited ∈ disk.visits followLinks depth ancestors path kind) :
    ∃ seen, disk.entryKind followLinks ancestors path kind = .ok seen := by
  cases entered : disk.entryKind followLinks ancestors path kind with
  | ok seen => exact ⟨seen, rfl⟩
  | error error =>
    unfold visits at member
    simp [entered] at member

namespace Respelled

variable {disk : Disk} {first second : Path} (respelled : disk.Respelled first second)

include respelled

theorem status_below (names : List Name) (proper : ∀ name ∈ names, name.Proper)
    (short : (first.below names).octets.length ≤ pathLimit)
    (otherShort : (second.below names).octets.length ≤ pathLimit) :
    disk.status (first.below names) = disk.status (second.below names) := by
  by_cases root : names = []
  · obtain ⟨base, mode, standing⟩ := respelled.firstStanding
    subst root
    exact standing.trans (respelled.standing base mode standing).symm
  · simp only [status, respelled.locate_below true names proper root short otherShort]

theorem visited_within (followLinks : Bool) (depth : Nat) (ancestors others : List Ancestor)
    (places : ancestors.map Ancestor.place = others.map Ancestor.place) (above : List Name)
    (proper : ∀ name ∈ above, name.Proper) (kind : Kind) (path : Path)
    (member : .ok path ∈ disk.visits followLinks depth ancestors (first.below above) kind)
    (short : ∀ names, (∀ name ∈ names, name.Proper) →
      .ok (first.below names) ∈ disk.visits followLinks depth ancestors (first.below above) kind →
        (first.below names).octets.length ≤ pathLimit ∧
          (second.below names).octets.length ≤ pathLimit) :
    ∃ names, (∀ name ∈ names, name.Proper) ∧ path = first.below names ∧
      .ok (second.below names) ∈ disk.visits followLinks depth others (second.below above) kind := by
  induction depth using Nat.strongRecOn generalizing ancestors others above kind with
  | _ depth ih =>
    obtain ⟨seen, entered⟩ := disk.exists_entryKind_of_mem followLinks depth ancestors _ path kind
      member
    have here := disk.mem_visits_of_entryKind followLinks depth ancestors _ kind seen entered
    obtain ⟨shortHere, otherShortHere⟩ := short above proper here
    have standing := respelled.status_below above proper shortHere otherShortHere
    have otherEntered :=
      disk.entryKind_congr followLinks ancestors others places _ _ standing kind seen entered
    rcases disk.visits_cases followLinks depth ancestors _ kind _ member with
      ⟨error, -, failed⟩ | itself | ⟨fewer, rfl, directory, ⟨cause, -, failed⟩ |
        ⟨listing, name, next, listed, entry, further⟩⟩
    · cases failed
    · cases itself
      exact ⟨above, proper, rfl,
        disk.mem_visits_of_entryKind followLinks depth others _ kind seen otherEntered⟩
    · cases failed
    · cases directory.symm.trans entered
      have otherListed : disk.list (second.below above) = .ok listing := by
        rw [← listed]
        simp only [list, standing]
      rw [disk.visits_of_entryKind followLinks _ ancestors _ kind directory] at short
      rw [disk.visits_of_entryKind followLinks _ others _ kind otherEntered]
      have properName : name.Proper := by
        rw [entries_of_list listed] at entry
        obtain ⟨item, held, -⟩ := (respelled.tree.mem_children _ name next).mp entry
        exact respelled.tree.proper_of_item? held name (by simp)
      rw [← first.below_concat] at further
      obtain ⟨names, properNames, rfl, visited⟩ := ih fewer (Nat.lt_succ_self fewer)
        ({ path := first.below above, place := listing.place } :: ancestors)
        ({ path := second.below above, place := listing.place } :: others) (by simp [places])
        (above ++ [name]) (by simpa [or_imp, forall_and] using ⟨proper, properName⟩) next further
        (by
          intro names properNames below
          rw [first.below_concat] at below
          exact short names properNames
            (mem_visits_of_entry disk followLinks fewer ancestors _ listing listed name next entry _
              below))
      rw [second.below_concat] at visited
      exact ⟨names, properNames, rfl, mem_visits_of_entry disk followLinks fewer others _ listing
        otherListed name next entry _ visited⟩

theorem visited_below (config : Config) (fits : disk.FitsBelow config first second) (path : Path)
    (visited : .ok path ∈ disk.walk config.followLinks config.maxDepth.toNat first)
    (deeper : path ≠ first) :
    ∃ names, (∀ name ∈ names, name.Proper) ∧ path = first.below names ∧
      .ok (second.below names) ∈ disk.walk config.followLinks config.maxDepth.toNat second := by
  obtain ⟨base, mode, standing⟩ := respelled.firstStanding
  have otherStanding := respelled.standing base mode standing
  rcases disk.walk_of_status config.followLinks config.maxDepth.toNat first base mode standing with
    ⟨-, fails⟩ | enters
  · simp [fails] at visited
  rcases disk.walk_of_status config.followLinks config.maxDepth.toNat second base mode
    otherStanding with ⟨closed, -⟩ | otherEnters
  · -- What is below cannot have been listed.
    rw [enters] at visited
    rcases disk.visits_cases config.followLinks _ [] first _ _ visited with
      ⟨error, -, failed⟩ | itself | ⟨_, -, -, ⟨cause, -, failed⟩ | ⟨listing, _, _, listed, -, -⟩⟩
    · cases failed
    · cases itself
      exact absurd rfl deeper
    · cases failed
    · simp [list, standing, closed] at listed
  · rw [enters] at visited
    simp only [otherEnters]
    apply respelled.visited_within config.followLinks config.maxDepth.toNat [] [] rfl [] (by simp)
      .directory path visited
    intro names proper below
    have both := fits (first.below names) ((disk.mem_walked_iff config first _).mpr
      (by rw [enters]; exact below))
    rwa [Path.respelled_below first second respelled.filled names proper] at both

theorem deeper_of_isFile (path : Path) (regular : disk.isFile path = true) : path ≠ first := by
  rintro rfl
  obtain ⟨base, mode, standing⟩ := respelled.firstStanding
  simp [isFile, standing] at regular

theorem fileName?_below (names : List Name) (proper : ∀ name ∈ names, name.Proper)
    (deeper : names ≠ []) : (first.below names).fileName? = (second.below names).fileName? := by
  obtain ⟨above, last, rfl⟩ := (List.eq_nil_or_concat names).resolve_left deeper
  rw [List.concat_eq_append] at proper ⊢
  rw [first.fileName?_below respelled.filled above last proper,
    second.fileName?_below respelled.symm.filled above last proper]

theorem twins_below (names : List Name) (proper : ∀ name ∈ names, name.Proper)
    (deeper : names ≠ []) (short : (first.below names).octets.length ≤ pathLimit)
    (otherShort : (second.below names).octets.length ≤ pathLimit) :
    disk.Twins (first.below names) (second.below names) := by
  have absolute : (first.below names).absolute disk.workingDirectory =
      (second.below names).absolute disk.workingDirectory := by
    rw [absolute_eq_lexicalPlace, absolute_eq_lexicalPlace,
      respelled.lexicalPlace_below_eq names proper]
  refine ⟨respelled.locate_below true names proper deeper short otherShort, absolute, ?_⟩
  rw [rulePath_of_placed, rulePath_of_placed, absolute]
  · rw [second.isAbsolute_below respelled.symm.filled names proper]
    exact respelled.symm.placed
  · rw [first.isAbsolute_below respelled.filled names proper]
    exact respelled.placed

theorem excludesAlike (config : Config) (patterns : List Glob.Pattern)
    (fits : disk.FitsBelow config second first)
    (alike : disk.ExcludesAlike config patterns first second) :
    disk.ExcludesAlike config patterns second first := by
  intro path walked named regular
  have visited := (disk.mem_walked_iff config second path).mp walked
  obtain ⟨otherShort, short⟩ := fits path walked
  have deeper := respelled.symm.deeper_of_isFile path regular
  obtain ⟨names, proper, rfl, otherVisited⟩ :=
    respelled.symm.visited_below config fits path visited deeper
  have below : names ≠ [] := by
    rintro rfl
    exact deeper rfl
  rw [Path.respelled_below second first respelled.symm.filled names proper] at short ⊢
  have same := alike (first.below names) ((disk.mem_walked_iff config first _).mpr otherVisited)
    (by rw [respelled.fileName?_below names proper below, named])
    (by rw [isFile, respelled.status_below names proper short otherShort]; exact regular)
  rw [Path.respelled_below first second respelled.filled names proper] at same
  exact same.symm

theorem found_below (config : Config) (patterns : List Glob.Pattern)
    (fits : disk.FitsBelow config first second)
    (alike : disk.ExcludesAlike config patterns first second) (path : Path)
    (found : path ∈ (disk.discover { config with root := first } patterns).files) :
    ∃ names, (∀ name ∈ names, name.Proper) ∧ names ≠ [] ∧ path = first.below names ∧
      disk.Twins path (second.below names) ∧
      second.below names ∈ (disk.discover { config with root := second } patterns).files := by
  obtain ⟨base, mode, standing⟩ := respelled.firstStanding
  obtain ⟨reachedBase, reached, visited, inspected⟩ :=
    disk.of_mem_discover { config with root := first } patterns path found
  obtain ⟨-, named, regular, ⟨place, canonical, inside⟩, included⟩ :=
    (disk.inspect_eq_routeFile_iff _ patterns reachedBase _ path).mp inspected
  obtain rfl := disk.canonical_eq_of_locate first base reachedBase (locate_of_status standing).1
    reached
  have deeper := respelled.deeper_of_isFile path regular
  have walked := (disk.mem_walked_iff config first path).mpr visited
  obtain ⟨short, otherShort⟩ := fits path walked
  have sameExclusion := alike path walked named regular
  obtain ⟨names, proper, rfl, otherVisited⟩ :=
    respelled.visited_below config fits path visited deeper
  rw [Path.respelled_below first second respelled.filled names proper] at otherShort sameExclusion
  have below : names ≠ [] := by
    rintro rfl
    exact deeper rfl
  have twins : disk.Twins (first.below names) (second.below names) :=
    respelled.twins_below names proper below short otherShort
  refine ⟨names, proper, below, rfl, twins, ?_⟩
  apply mem_files_of_inspect { config with root := second } disk patterns respelled.tree
    reachedBase (respelled.canonical _ mode standing reached) _ otherVisited
  refine (disk.inspect_eq_routeFile_iff _ patterns _ _ _).mpr ⟨rfl, ?_, ?_, ⟨place, ?_, inside⟩, ?_⟩
  · rw [← respelled.fileName?_below names proper below]
    exact named
  · rw [isFile, ← twins.status]
    exact regular
  · rw [← respelled.canonical_below _ proper below]
    exact canonical
  · rw [← sameExclusion]
    exact included

theorem files_respelled (config : Config) (patterns : List Glob.Pattern)
    (fits : disk.FitsBelow config first second) (otherFits : disk.FitsBelow config second first)
    (alike : disk.ExcludesAlike config patterns first second) :
    (disk.discover { config with root := second } patterns).files =
      (disk.discover { config with root := first } patterns).files.map
        (Path.respelled first second) := by
  have found := respelled.found_below config patterns fits alike
  have otherFound := respelled.symm.found_below config patterns otherFits
    (respelled.excludesAlike config patterns otherFits alike)
  apply Path.eq_of_increasing
  · exact disk.increasing_discover _ patterns
  · refine List.pairwise_map.mpr (List.Pairwise.imp_of_mem ?_
      (disk.increasing_discover { config with root := first } patterns))
    intro path other member otherMember less
    obtain ⟨names, proper, -, rfl, -⟩ := found path member
    obtain ⟨others, otherProper, -, rfl, -⟩ := found other otherMember
    rw [Path.respelled_below _ _ respelled.filled _ proper,
      Path.respelled_below _ _ respelled.filled _ otherProper,
      ← first.compare_below second respelled.filled respelled.symm.filled _ _ proper otherProper]
    exact less
  · intro path
    constructor
    · intro member
      obtain ⟨names, proper, -, rfl, -, twin⟩ := otherFound path member
      exact List.mem_map.mpr ⟨_, twin, Path.respelled_below _ _ respelled.filled _ proper⟩
    · intro member
      obtain ⟨twin, twinMember, rfl⟩ := List.mem_map.mp member
      obtain ⟨names, proper, -, rfl, -, other⟩ := found twin twinMember
      rw [Path.respelled_below _ _ respelled.filled _ proper]
      exact other

theorem twins_respelled (config : Config) (patterns : List Glob.Pattern)
    (fits : disk.FitsBelow config first second)
    (alike : disk.ExcludesAlike config patterns first second) (path : Path)
    (found : path ∈ (disk.discover { config with root := first } patterns).files) :
    disk.Twins path (Path.respelled first second path) := by
  obtain ⟨names, proper, -, rfl, twins, -⟩ :=
    respelled.found_below config patterns fits alike path found
  rw [Path.respelled_below _ _ respelled.filled _ proper]
  exact twins

end Respelled

end Disk

end RouteMigration
