import RouteMigration.Migration.Walk
import RouteMigration.Proofs.Disk.LastLink

set_option autoImplicit false

namespace RouteMigration

def Visit.path? : Visit → Option Path
  | .ok path => some path
  | .error error => error.path?

namespace Disk

def FailsAt (visits : List Visit) (path : Path) : Prop :=
  ∃ cause, .error (.access (some path) cause) ∈ visits

section Visits

variable (disk : Disk) (followLinks : Bool) (depth : Nat) (ancestors : List Ancestor) (path : Path)

theorem mem_visits_of_entryKind (kind seen : Kind)
    (entered : disk.entryKind followLinks ancestors path kind = .ok seen) :
    .ok path ∈ disk.visits followLinks depth ancestors path kind := by
  unfold visits
  rw [entered]
  cases seen <;> simp

theorem ok_mem_visits (kind : Kind) (plain : kind ≠ .link) :
    .ok path ∈ disk.visits followLinks depth ancestors path kind :=
  disk.mem_visits_of_entryKind followLinks depth ancestors path kind kind (by simp [entryKind, plain])

theorem failsAt_of_list (cause : AccessError) (unlisted : disk.list path = .error cause) :
    FailsAt (disk.visits followLinks (depth + 1) ancestors path .directory) path := by
  refine ⟨cause, ?_⟩
  unfold visits
  simp [entryKind, unlisted]

theorem mem_visits_of_entry (listing : Listing) (listed : disk.list path = .ok listing)
    (name : Name) (kind : Kind) (entry : (name, kind) ∈ listing.entries) (visit : Visit)
    (visited : visit ∈ disk.visits followLinks depth
      ({ path, place := listing.place } :: ancestors) (path.joined name) kind) :
    visit ∈ disk.visits followLinks (depth + 1) ancestors path .directory := by
  unfold visits
  simp only [entryKind, reduceCtorEq, and_false, if_false, listed, List.mem_cons,
    List.mem_flatMap, Prod.exists]
  exact .inr ⟨name, kind, entry, visited⟩

end Visits

section Coverage

variable (disk : Disk) (tree : disk.Tree) (followLinks : Bool) (depth : Nat)
  (ancestors : List Ancestor) (path : Path) (place : Location) (names : List Name)

include tree

theorem listed_or_failed (item : Item) (located : disk.locate true path = .ok place)
    (held : disk.item? (place ++ names) = some item) (below : names ≠ []) :
    FailsAt (disk.visits followLinks (depth + 1) ancestors path .directory) path ∨
      disk.list path = .ok { place, entries := disk.children place } := by
  obtain ⟨mode, directory⟩ := tree.exists_above held below
  have listed := disk.list_of_locate path place mode located directory
  by_cases readable : mode.readable = true
  · exact .inr (by rw [listed, if_pos readable])
  · rw [if_neg readable] at listed
    exact .inl (disk.failsAt_of_list followLinks depth ancestors path _ listed)

theorem visited_or_failed (last : Name) (item : Item) (located : disk.locate true path = .ok place)
    (held : disk.item? (place ++ (names ++ [last])) = some item) (plain : item.kind ≠ .link)
    (within : names.length < depth) :
    (∃ above, above <+: names ∧
      FailsAt (disk.visits followLinks depth ancestors path .directory) (path.below above)) ∨
    .ok (path.below (names ++ [last])) ∈ disk.visits followLinks depth ancestors path .directory ∧
      disk.locate true (path.below names) = .ok (place ++ names) := by
  induction names generalizing depth ancestors path place with
  | nil =>
    obtain ⟨depth, rfl⟩ := Nat.exists_eq_succ_of_ne_zero (Nat.ne_of_gt within)
    rcases disk.listed_or_failed tree followLinks depth ancestors path place [last] item located
      held (by simp) with fails | listed
    · exact .inl ⟨[], List.prefix_refl [], fails⟩
    · refine .inr ⟨?_, by simpa [Path.below] using located⟩
      apply mem_visits_of_entry disk followLinks depth ancestors path _ listed last item.kind
      · exact (tree.mem_children place last item.kind).mpr ⟨item, held, rfl⟩
      · exact disk.ok_mem_visits followLinks depth _ (path.joined last) item.kind plain
  | cons name names ih =>
    obtain ⟨depth, rfl⟩ := Nat.exists_eq_succ_of_ne_zero (Nat.ne_of_gt (Nat.zero_lt_of_lt within))
    rw [List.length_cons, Nat.add_lt_add_iff_right] at within
    rcases disk.listed_or_failed tree followLinks depth ancestors path place _ item located held
      (by simp) with fails | listed
    · exact .inl ⟨[], List.nil_prefix, fails⟩
    rw [List.cons_append, List.append_cons] at held
    obtain ⟨mode, directory⟩ := tree.exists_above held (by simp)
    obtain ⟨parentMode, parent⟩ := tree.exists_parent directory
    have entry : (name, Kind.directory) ∈ disk.children place :=
      (tree.mem_children place name .directory).mpr ⟨_, directory, rfl⟩
    have further (visit : Visit) (visited : visit ∈ disk.visits followLinks depth
        ({ path, place } :: ancestors) (path.joined name) .directory) :
        visit ∈ disk.visits followLinks (depth + 1) ancestors path .directory :=
      mem_visits_of_entry disk followLinks depth ancestors path _ listed name .directory entry visit
        visited
    have proper : name.Proper := tree.proper_of_item? directory name (by simp)
    have step := disk.locate_joined path place parentMode name _ located parent directory
      (by simp [Item.kind]) proper
    cases reached : disk.locate true (path.joined name) with
    | error cause =>
      obtain ⟨depth, rfl⟩ :=
        Nat.exists_eq_succ_of_ne_zero (Nat.ne_of_gt (Nat.zero_lt_of_lt within))
      have unlisted : disk.list (path.joined name) = .error cause := by
        simp [list, status, reached]
      obtain ⟨cause, failed⟩ := disk.failsAt_of_list followLinks depth
        ({ path, place } :: ancestors) (path.joined name) cause unlisted
      exact .inl ⟨[name], (List.prefix_cons_inj name).mpr List.nil_prefix, cause,
        further _ failed⟩
    | ok place' =>
      have arrived : place' = place ++ [name] := by
        rw [reached] at step
        split at step
        next => cases step
        next => split at step <;> cases step; rfl
      subst arrived
      rcases ih depth ({ path, place } :: ancestors) (path.joined name) (place ++ [name]) reached
        held within with ⟨above, inside, cause, failed⟩ | ⟨visited, located⟩
      · exact .inl ⟨name :: above, (List.prefix_cons_inj name).mpr inside, cause,
          further _ failed⟩
      · refine .inr ⟨further _ visited, ?_⟩
        rw [Path.below_cons, located, ← List.append_cons]

end Coverage

theorem visits_cases (disk : Disk) (followLinks : Bool) (depth : Nat) (ancestors : List Ancestor)
    (path : Path) (kind : Kind) (visit : Visit)
    (member : visit ∈ disk.visits followLinks depth ancestors path kind) :
    (∃ error, disk.entryKind followLinks ancestors path kind = .error error ∧
      visit = .error error) ∨
    visit = .ok path ∨
    ∃ fewer, depth = fewer + 1 ∧ disk.entryKind followLinks ancestors path kind = .ok .directory ∧
      ((∃ cause, disk.list path = .error cause ∧ visit = .error (.access (some path) cause)) ∨
        ∃ listing name next, disk.list path = .ok listing ∧ (name, next) ∈ listing.entries ∧
          visit ∈ disk.visits followLinks fewer ({ path, place := listing.place } :: ancestors)
            (path.joined name) next) := by
  unfold visits at member
  cases seen : disk.entryKind followLinks ancestors path kind with
  | error error => exact .inl ⟨error, rfl, by simpa [seen] using member⟩
  | ok kind =>
    right
    cases kind with
    | file => exact .inl (by simpa [seen] using member)
    | link => exact .inl (by simpa [seen] using member)
    | directory =>
      simp only [seen, List.mem_cons] at member
      refine member.imp_right fun below => ?_
      cases depth with
      | zero => simp at below
      | succ fewer =>
        refine ⟨fewer, rfl, rfl, ?_⟩
        cases listed : disk.list path with
        | error cause => exact .inl ⟨cause, rfl, by simpa [listed] using below⟩
        | ok listing =>
          simp only [listed, List.mem_flatMap, Prod.exists] at below
          obtain ⟨name, next, entry, visited⟩ := below
          exact .inr ⟨listing, name, next, rfl, entry, visited⟩

theorem entries_of_list {disk : Disk} {path : Path} {listing : Listing}
    (listed : disk.list path = .ok listing) : listing.entries = disk.children listing.place := by
  unfold list at listed
  split at listed
  next => cases listed
  next =>
    split at listed
    next =>
      cases listed
      rfl
    next => cases listed
  next => cases listed

theorem path?_of_entryKind (disk : Disk) (followLinks : Bool) (ancestors : List Ancestor)
    (path : Path) (kind : Kind) (error : WalkError)
    (failed : disk.entryKind followLinks ancestors path kind = .error error) :
    error.path? = none ∨ error.path? = some path := by
  unfold entryKind at failed
  split at failed
  next =>
    unfold followedKind at failed
    split at failed
    next =>
      cases failed
      exact .inr rfl
    next =>
      split at failed
      next =>
        cases failed
        exact .inl rfl
      next =>
        split at failed
        next =>
          cases failed
          exact .inr rfl
        next => cases failed
    next => cases failed
  next => cases failed

theorem below_of_mem_visits (disk : Disk) (tree : disk.Tree) (followLinks : Bool) (depth : Nat)
    (ancestors : List Ancestor) (path : Path) (kind : Kind) (visit : Visit)
    (member : visit ∈ disk.visits followLinks depth ancestors path kind) (visited : Path)
    (about : Visit.path? visit = some visited) :
    ∃ names, (∀ name ∈ names, name.Proper) ∧ visited = path.below names := by
  induction depth using Nat.strongRecOn generalizing ancestors path kind with
  | _ depth ih =>
    have here (same : some path = some visited) :
        ∃ names, (∀ name ∈ names, name.Proper) ∧ visited = path.below names :=
      ⟨[], by simp, (Option.some.inj same).symm⟩
    rcases disk.visits_cases followLinks depth ancestors path kind _ member with
      ⟨error, failed, rfl⟩ | rfl | ⟨fewer, rfl, -, ⟨cause, -, rfl⟩ |
        ⟨listing, name, next, listed, entry, below⟩⟩
    · rcases disk.path?_of_entryKind followLinks ancestors path kind error failed with
        nowhere | there
      · cases nowhere.symm.trans about
      · exact here (there.symm.trans about)
    · exact here about
    · exact here about
    · rw [entries_of_list listed] at entry
      obtain ⟨item, held, -⟩ := (tree.mem_children _ name next).mp entry
      have proper := tree.proper_of_item? held name (by simp)
      obtain ⟨names, properNames, rfl⟩ := ih fewer (Nat.lt_succ_self fewer) _ _ _ below
      exact ⟨name :: names, List.forall_mem_cons.mpr ⟨proper, properNames⟩, rfl⟩

theorem visits_of_entryKind (disk : Disk) (followLinks : Bool) (depth : Nat)
    (ancestors : List Ancestor) (path : Path) (kind : Kind)
    (seen : disk.entryKind followLinks ancestors path kind = .ok .directory) :
    disk.visits followLinks depth ancestors path kind =
      disk.visits followLinks depth ancestors path .directory := by
  have same : disk.entryKind followLinks ancestors path .directory = .ok .directory := by
    simp [entryKind]
  unfold visits
  rw [seen, same]

theorem walk_of_status (disk : Disk) (followLinks : Bool) (maxDepth : Nat) (root : Path)
    (base : Location) (mode : Mode) (standing : disk.status root = .ok (base, .directory mode)) :
    (mode.readable = false ∧ disk.walk followLinks maxDepth root =
      [.error (.access none .permissionDenied)]) ∨
    disk.walk followLinks maxDepth root =
      disk.visits followLinks maxDepth [] root .directory := by
  have directory : disk.isDirectory root = true := by simp [isDirectory, standing]
  unfold walk rootKind
  rcases disk.kindAt_cases root base _ standing with seen | seen
  · rw [seen]
    by_cases follow : followLinks = true
    · simp only [follow, if_true]
      by_cases readable : mode.readable = true
      · right
        apply visits_of_entryKind
        simp [entryKind, followedKind, standing, readable]
      · left
        refine ⟨by simpa using readable, ?_⟩
        unfold visits
        simp [entryKind, followedKind, standing, readable]
    · right
      simp [follow, directory]
  · rw [seen]
    exact .inr rfl

end Disk

end RouteMigration
