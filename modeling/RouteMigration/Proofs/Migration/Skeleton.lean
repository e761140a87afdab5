import RouteMigration.Migration.Run
import RouteMigration.Proofs.Disk.Skeleton

set_option autoImplicit false

namespace RouteMigration

namespace Disk

theorem followedKind_skeleton (disk : Disk) (ancestors : List Ancestor) (link : Path) :
    disk.skeleton.followedKind ancestors link = disk.followedKind ancestors link := by
  simp only [followedKind, status_skeleton]
  cases disk.status link with
  | error cause => rfl
  | ok found =>
    obtain ⟨place, item⟩ := found
    cases item <;> rfl

theorem visits_skeleton (disk : Disk) (followLinks : Bool) (depth : Nat)
    (ancestors : List Ancestor) (path : Path) (kind : Kind) :
    disk.skeleton.visits followLinks depth ancestors path kind =
      disk.visits followLinks depth ancestors path kind := by
  have entered (ancestors : List Ancestor) (path : Path) (kind : Kind) :
      disk.skeleton.entryKind followLinks ancestors path kind =
        disk.entryKind followLinks ancestors path kind := by
    simp only [entryKind, followedKind_skeleton]
  induction depth generalizing ancestors path kind with
  | zero => unfold visits; simp only [entered]
  | succ depth ih => unfold visits; simp only [entered, list_skeleton, ih]

theorem walk_skeleton (disk : Disk) (followLinks : Bool) (maxDepth : Nat) (root : Path) :
    disk.skeleton.walk followLinks maxDepth root = disk.walk followLinks maxDepth root := by
  simp only [walk, rootKind, kindAt_skeleton, isDirectory_skeleton, visits_skeleton]

theorem inspect_skeleton (disk : Disk) (config : Config) (patterns : List Glob.Pattern)
    (base : Location) (visit : Visit) :
    disk.skeleton.inspect config patterns base visit =
      disk.inspect config patterns base visit := by
  cases visit with
  | error failure => rfl
  | ok path => simp only [inspect, isFile_skeleton, canonical_skeleton]

theorem discover_skeleton (disk : Disk) (config : Config) (patterns : List Glob.Pattern) :
    disk.skeleton.discover config patterns = disk.discover config patterns := by
  have inspected (base : Location) :
      disk.skeleton.inspect config patterns base = disk.inspect config patterns base := by
    funext visit
    exact disk.inspect_skeleton config patterns base visit
  simp only [discover, canonical_skeleton, walk_skeleton, inspected]

theorem rulePath_skeleton (disk : Disk) (path : Path) :
    disk.skeleton.rulePath path = disk.rulePath path := by
  simp [rulePath, hasWorkingDirectory]

variable {first second : Disk}

theorem Alike.discover (alike : first.Alike second) (config : Config)
    (patterns : List Glob.Pattern) :
    first.discover config patterns = second.discover config patterns := by
  rw [← discover_skeleton, alike, discover_skeleton]

theorem Alike.rulePath (alike : first.Alike second) (path : Path) :
    first.rulePath path = second.rulePath path := by
  rw [← rulePath_skeleton, alike, rulePath_skeleton]

end Disk

theorem Config.validate_skeleton (config : Config) (disk : Disk) :
    config.validate disk.skeleton = config.validate disk := by
  simp only [validate, Disk.pathExists_skeleton, Disk.isDirectory_skeleton]

theorem Disk.Alike.validate {first second : Disk} (alike : first.Alike second) (config : Config) :
    config.validate first = config.validate second := by
  rw [← Config.validate_skeleton, alike, Config.validate_skeleton]

end RouteMigration
