import RouteMigration.Proofs.Migration.Coverage
import RouteMigration.Proofs.Migration.RootBoundary

set_option autoImplicit false

namespace RouteMigration

def Glob.Pattern.Hits (pattern : Glob.Pattern) (path : Path) : Prop :=
  pattern.matchesText path.shown = true ∨
    ∃ name, path.fileName? = some name ∧ pattern.matchesText (Utf8.lossy name) = true

theorem isExcluded_iff (patterns : List Glob.Pattern) (path : Path) :
    isExcluded patterns path = true ↔ ∃ pattern ∈ patterns, pattern.Hits path := by
  unfold isExcluded Glob.Pattern.Hits
  cases path.fileName? <;> simp

instance (pattern : Glob.Pattern) (path : Path) : Decidable (pattern.Hits path) :=
  decidable_of_iff (isExcluded [pattern] path = true) (by simp [isExcluded_iff])

theorem Finding.error?_eq_some_iff (finding : Finding) (error : FileError) :
    finding.error? = some error ↔ finding = .failure error := by
  cases finding <;> simp [error?]

namespace Disk

structure Candidate (disk : Disk) (config : Config) (path : Path) : Prop where
  visited : .ok path ∈ disk.walk config.followLinks config.maxDepth.toNat config.root
  named : path.fileName? = some config.targetName
  regular : disk.isFile path = true

def LeadsInside (disk : Disk) (root path : Path) : Prop :=
  ∃ place, disk.canonical path = .ok place ∧ disk.InsideRoot root place

/-- Whether a discovery has recorded an error about a file and not about the walk. -/
def Reports (errors : List FileError) (path : Path) : Prop :=
  ∃ error ∈ errors, error.kind ≠ .walkError ∧ error.file = path

variable (config : Config) (disk : Disk) (patterns : List Glob.Pattern)

theorem leadsInside_iff (base : Location) (reached : disk.canonical config.root = .ok base)
    (path : Path) : disk.LeadsInside config.root path ↔
      ∃ place, disk.canonical path = .ok place ∧ base <+: place := by
  simp [LeadsInside, InsideRoot, reached]

theorem mem_files_iff (tree : disk.Tree) (path : Path) :
    path ∈ (disk.discover config patterns).files ↔
      disk.Candidate config path ∧ disk.LeadsInside config.root path ∧
        ∀ pattern ∈ patterns, ¬ pattern.Hits path := by
  have included : isExcluded patterns path = false ↔ ∀ pattern ∈ patterns, ¬ pattern.Hits path := by
    rw [← Bool.not_eq_true, isExcluded_iff]
    simp
  constructor
  · intro member
    obtain ⟨base, reached, visited, inspected⟩ := disk.of_mem_discover config patterns path member
    obtain ⟨-, named, regular, ⟨place, canonical, inside⟩, kept⟩ :=
      (disk.inspect_eq_routeFile_iff config patterns base _ path).mp inspected
    exact ⟨⟨visited, named, regular⟩, ⟨place, canonical, base, reached, inside⟩, included.mp kept⟩
  · rintro ⟨candidate, ⟨place, canonical, base, reached, inside⟩, kept⟩
    apply mem_files_of_inspect config disk patterns tree base reached path candidate.visited
    exact (disk.inspect_eq_routeFile_iff config patterns base _ path).mpr
      ⟨rfl, candidate.named, candidate.regular, ⟨place, canonical, inside⟩, included.mpr kept⟩

theorem files_added (tree : disk.Tree) (earlier later : List Glob.Pattern)
    (pattern : Glob.Pattern) : (disk.discover config (earlier ++ pattern :: later)).files =
      (disk.discover config (earlier ++ later)).files.filter fun path => ¬ pattern.Hits path := by
  apply Path.eq_of_increasing
  · exact disk.increasing_discover config _
  · exact List.Pairwise.filter _ (disk.increasing_discover config _)
  · intro path
    rw [List.mem_filter, mem_files_iff config disk _ tree, mem_files_iff config disk _ tree,
      decide_eq_true_iff]
    simp only [List.mem_append, List.mem_cons]
    constructor
    · rintro ⟨candidate, inside, kept⟩
      exact ⟨⟨candidate, inside, fun other member => kept other (member.imp_right .inr)⟩,
        kept pattern (.inr (.inl rfl))⟩
    · rintro ⟨⟨candidate, inside, kept⟩, missed⟩
      refine ⟨candidate, inside, ?_⟩
      rintro other (member | rfl | member)
      · exact kept other (.inl member)
      · exact missed
      · exact kept other (.inr member)

theorem error?_inspect (others : List Glob.Pattern) (base : Location) (visit : Visit) :
    (disk.inspect config patterns base visit).error? =
      (disk.inspect config others base visit).error? := by
  unfold inspect
  cases visit with
  | error error => rfl
  | ok path =>
    dsimp only
    split
    next => rfl
    next =>
      split
      next => rfl
      next =>
        split
        next => rfl
        next => split <;> split <;> rfl

theorem errors_discover (others : List Glob.Pattern) :
    (disk.discover config patterns).errors = (disk.discover config others).errors := by
  unfold discover
  split
  next => rfl
  next base reached =>
    simp only [List.filterMap_map]
    exact List.filterMap_congr fun visit _ => error?_inspect config disk patterns others base visit

theorem reported_inspect_iff (base : Location) (visit : Visit) (path : Path) :
    (∃ error, disk.inspect config patterns base visit = .failure error ∧
      error.kind ≠ .walkError ∧ error.file = path) ↔
    visit = .ok path ∧ path.fileName? = some config.targetName ∧ disk.isFile path = true ∧
      ∀ place, disk.canonical path = .ok place → ¬ base <+: place := by
  constructor
  · rintro ⟨error, failed, kind, rfl⟩
    unfold inspect at failed
    split at failed
    next =>
      cases failed
      exact absurd rfl kind
    next visited =>
      split at failed
      next => cases failed
      next wanted =>
        rw [not_or, Classical.not_not, Bool.not_eq_false] at wanted
        split at failed
        next unresolved =>
          cases failed
          refine ⟨rfl, wanted.1, wanted.2, ?_⟩
          intro place resolved
          cases unresolved.symm.trans resolved
        next place resolved =>
          split at failed
          next outside =>
            cases failed
            refine ⟨rfl, wanted.1, wanted.2, ?_⟩
            intro other same inside
            cases resolved.symm.trans same
            simp [List.isPrefixOf_iff_prefix.mpr inside] at outside
          next =>
            split at failed <;> cases failed
  · rintro ⟨rfl, named, regular, outside⟩
    cases resolved : disk.canonical path with
    | error cause =>
      refine ⟨unresolvedFailure path cause, ?_, by simp [unresolvedFailure], rfl⟩
      simp [inspect, named, regular, resolved]
    | ok place =>
      refine ⟨outsideRootFailure path place, ?_, by simp [outsideRootFailure], rfl⟩
      have apart := outside place resolved
      rw [← List.isPrefixOf_iff_prefix] at apart
      simp [inspect, named, regular, resolved, apart]

theorem reports_iff_inspected (base : Location) (reached : disk.canonical config.root = .ok base)
    (path : Path) : Reports (disk.discover config patterns).errors path ↔
      ∃ visit ∈ disk.walk config.followLinks config.maxDepth.toNat config.root, ∃ error,
        disk.inspect config patterns base visit = .failure error ∧ error.kind ≠ .walkError ∧
          error.file = path := by
  simp only [Reports, discover, reached, List.filterMap_map, List.mem_filterMap,
    Function.comp_apply, Finding.error?_eq_some_iff]
  constructor
  · rintro ⟨error, ⟨visit, visited, failed⟩, about⟩
    exact ⟨visit, visited, error, failed, about⟩
  · rintro ⟨visit, visited, error, failed, about⟩
    exact ⟨error, ⟨visit, visited, failed⟩, about⟩

theorem reports_iff (base : Location) (reached : disk.canonical config.root = .ok base)
    (path : Path) : Reports (disk.discover config patterns).errors path ↔
      disk.Candidate config path ∧ ¬ disk.LeadsInside config.root path := by
  rw [reports_iff_inspected config disk patterns base reached,
    leadsInside_iff config disk base reached]
  constructor
  · rintro ⟨visit, visited, failed⟩
    obtain ⟨rfl, named, regular, outside⟩ :=
      (reported_inspect_iff config disk patterns base visit path).mp failed
    exact ⟨⟨visited, named, regular⟩, fun ⟨place, resolved, within⟩ => outside place resolved within⟩
  · rintro ⟨candidate, outside⟩
    refine ⟨_, candidate.visited, (reported_inspect_iff config disk patterns base _ path).mpr
      ⟨rfl, candidate.named, candidate.regular, ?_⟩⟩
    exact fun place resolved within => outside ⟨place, resolved, within⟩

theorem excluded_left_out (tree : disk.Tree) :
    (∀ path ∈ (disk.discover config patterns).files, ∀ pattern ∈ patterns, ¬ pattern.Hits path) ∧
    (∀ earlier pattern later, patterns = earlier ++ pattern :: later →
      (disk.discover config patterns).files =
        ((disk.discover config (earlier ++ later)).files.filter fun path => ¬ pattern.Hits path) ∧
      (disk.discover config patterns).errors = (disk.discover config (earlier ++ later)).errors) ∧
    ∀ base, disk.canonical config.root = .ok base →
      (∀ path, Reports (disk.discover config patterns).errors path ↔
        disk.Candidate config path ∧ ¬ disk.LeadsInside config.root path) ∧
      ((∀ path, Reports (disk.discover config patterns).errors path →
          ∀ pattern ∈ patterns, ¬ pattern.Hits path) ↔
        ∀ path, disk.Candidate config path → (∃ pattern ∈ patterns, pattern.Hits path) →
          disk.LeadsInside config.root path) := by
  refine ⟨?_, ?_, ?_⟩
  · intro path member
    exact ((mem_files_iff config disk patterns tree path).mp member).2.2
  · rintro earlier pattern later rfl
    exact ⟨files_added config disk tree earlier later pattern, errors_discover config disk _ _⟩
  · intro base reached
    have reports := reports_iff config disk patterns base reached
    refine ⟨reports, ?_, ?_⟩
    · rintro spared path candidate ⟨pattern, member, hit⟩
      by_contra outside
      exact spared path ((reports path).mpr ⟨candidate, outside⟩) pattern member hit
    · rintro within path reported pattern member hit
      obtain ⟨candidate, outside⟩ := (reports path).mp reported
      exact outside (within path candidate ⟨pattern, member, hit⟩)

def strayed : Disk where
  items :=
    [([], .directory {}), (placeOf ["api"], .directory {}), (placeOf ["api", "old"], .directory {}),
      (placeOf ["api", "old", "a"], .directory {}),
      (placeOf ["api", "old", "a", "route.ts"], .file {} (Utf8.encode "import x\nfetch(u)".toList)),
      (placeOf ["api", "old", "route.ts"], .link (Path.ofText "../../other/route.ts".toList)),
      (placeOf ["other"], .directory {}),
      (placeOf ["other", "route.ts"], .file {} (Utf8.encode "import x\nfetch(u)".toList))]
  workingDirectory := []

def strayedConfig : Config :=
  { root := Path.ofText "api".toList, exclude := ["*/old/*".toList] }

def strayedPattern : Glob.Pattern :=
  [.anySequence, .character '/', .character 'o', .character 'l', .character 'd', .character '/',
    .anySequence]

theorem excluded_left_out_strayed :
    strayed.Tree ∧ strayedConfig.validate strayed = .ok [strayedPattern] ∧
      (strayed.discover strayedConfig []).files = [Path.ofText "api/old/a/route.ts".toList] ∧
      (strayed.discover strayedConfig [strayedPattern]).files = [] := by
  have tree : strayed.Tree := ⟨by decide +kernel, by decide +kernel, by decide +kernel⟩
  obtain ⟨-, added, -⟩ := excluded_left_out strayedConfig strayed [strayedPattern] tree
  have found : (strayed.discover strayedConfig []).files =
      [Path.ofText "api/old/a/route.ts".toList] := by rfl
  refine ⟨tree, by rfl, found, ?_⟩
  rw [(added [] strayedPattern [] rfl).1, List.nil_append, found]
  decide +kernel

theorem excluded_reported :
    strayed.Tree ∧ strayedConfig.validate strayed = .ok [strayedPattern] ∧
      ∃ error, (strayed.discover strayedConfig [strayedPattern]).errors = [error] ∧
        error.kind = .outsideRoot ∧ strayedPattern.Hits error.file :=
  ⟨⟨by decide +kernel, by decide +kernel, by decide +kernel⟩, by rfl, _, by rfl, rfl,
    by decide +kernel⟩

end Disk

end RouteMigration
