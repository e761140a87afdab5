import RouteMigration.Migration.Discovery

set_option autoImplicit false

namespace RouteMigration

theorem Path.mem_of_mem_insertOrdered (path inserted : Path) (paths : List Path)
    (member : path ∈ insertOrdered inserted paths) : path = inserted ∨ path ∈ paths := by
  induction paths with
  | nil => simpa [insertOrdered] using member
  | cons next later ih =>
    unfold insertOrdered at member
    split at member
    next => simpa using member
    next =>
      rcases List.mem_cons.mp member with same | rest
      · exact .inl same
      · exact .inr (List.mem_cons_of_mem _ rest)
    next =>
      rcases List.mem_cons.mp member with same | rest
      · exact .inr (by simp [same])
      · exact (ih rest).imp_right (List.mem_cons_of_mem _)

theorem Path.mem_of_mem_sorted (path : Path) (paths : List Path) (member : path ∈ sorted paths) :
    path ∈ paths := by
  induction paths with
  | nil => simp [sorted] at member
  | cons next later ih =>
    rcases mem_of_mem_insertOrdered path next (sorted later) member with same | rest
    · simp [same]
    · exact List.mem_cons_of_mem _ (ih rest)

namespace Disk

theorem inspect_eq_routeFile_iff (disk : Disk) (config : Config) (patterns : List Glob.Pattern)
    (base : Location) (visit : Visit) (path : Path) :
    disk.inspect config patterns base visit = .routeFile path ↔
      visit = .ok path ∧ path.fileName? = some config.targetName ∧ disk.isFile path = true ∧
        (∃ place, disk.canonical path = .ok place ∧ base <+: place) ∧
        isExcluded patterns path = false := by
  constructor
  · intro found
    unfold inspect at found
    split at found
    next => cases found
    next visited =>
      split at found
      next => cases found
      next wanted =>
        rw [not_or, Classical.not_not, Bool.not_eq_false] at wanted
        split at found
        next => cases found
        next place reached =>
          split at found
          next => cases found
          next inside =>
            split at found
            next => cases found
            next included =>
              cases found
              rw [Bool.not_eq_true', Bool.not_eq_false, List.isPrefixOf_iff_prefix] at inside
              exact ⟨rfl, wanted.1, wanted.2, ⟨place, reached, inside⟩, by simpa using included⟩
  · rintro ⟨rfl, named, regular, ⟨place, reached, inside⟩, included⟩
    simp [inspect, named, regular, reached, List.isPrefixOf_iff_prefix.mpr inside, included]

theorem mem_routeFiles_iff (disk : Disk) (config : Config) (patterns : List Glob.Pattern)
    (base : Location) (visits : List Visit) (path : Path) :
    path ∈ (visits.map (disk.inspect config patterns base)).filterMap Finding.path? ↔
      .ok path ∈ visits ∧ disk.inspect config patterns base (.ok path) = .routeFile path := by
  simp only [List.mem_filterMap, List.mem_map]
  constructor
  · rintro ⟨finding, ⟨visit, visited, inspected⟩, named⟩
    have routeFile : finding = .routeFile path := by
      cases finding <;> simp_all [Finding.path?]
    rw [routeFile] at inspected
    obtain ⟨rfl, -⟩ := (disk.inspect_eq_routeFile_iff config patterns base visit path).mp inspected
    exact ⟨visited, inspected⟩
  · rintro ⟨visited, inspected⟩
    exact ⟨.routeFile path, ⟨.ok path, visited, inspected⟩, rfl⟩

theorem of_mem_discover (disk : Disk) (config : Config) (patterns : List Glob.Pattern) (path : Path)
    (member : path ∈ (disk.discover config patterns).files) :
    ∃ base, disk.canonical config.root = .ok base ∧
      .ok path ∈ disk.walk config.followLinks config.maxDepth.toNat config.root ∧
      disk.inspect config patterns base (.ok path) = .routeFile path := by
  unfold discover at member
  split at member
  next => simp at member
  next base reached =>
    have found := Path.mem_of_mem_sorted path _ member
    exact ⟨base, reached, (disk.mem_routeFiles_iff config patterns base _ path).mp found⟩

theorem placed_of_mem_discover (disk : Disk) (config : Config) (patterns : List Glob.Pattern)
    (path : Path) (member : path ∈ (disk.discover config patterns).files) :
    (path.isAbsolute || disk.hasWorkingDirectory) = true := by
  obtain ⟨base, -, -, inspected⟩ := disk.of_mem_discover config patterns path member
  obtain ⟨-, -, -, ⟨place, reached, -⟩, -⟩ :=
    (disk.inspect_eq_routeFile_iff config patterns base _ path).mp inspected
  unfold canonical at reached
  split at reached
  next => cases reached
  next =>
    split at reached
    next => cases reached
    next =>
      split at reached
      next => cases reached
      next started =>
        simp only [Bool.and_eq_true, Bool.not_eq_true', not_and, Bool.not_eq_false] at started
        rw [Bool.or_eq_true]
        by_cases absolute : path.isAbsolute = true
        · exact .inl absolute
        · exact .inr (started (by simpa using absolute))

end Disk

end RouteMigration
