import Mathlib.Data.List.DropRight
import RouteMigration.Path.Display
import RouteMigration.Proofs.Path.Ordering
import RouteMigration.Proofs.Path.Joined

set_option autoImplicit false

namespace RouteMigration

namespace Path

theorem isVoid_iff (part : Name) : isVoid part = true ↔ Component.ofPart? part = none := by
  simp [isVoid]

theorem isVoid_iff_part (part : Name) : isVoid part = true ↔ part = [] ∨ part = hereName := by
  rw [isVoid_iff, Component.ofPart?]
  split
  next void => simp [void]
  next filled => split <;> simp [filled]

def OpensFilled (parts : List Name) : Prop :=
  ∀ part ∈ parts.head?, isVoid part = false

theorem filterMap_dropWhile (parts : List Name) :
    (parts.dropWhile isVoid).filterMap Component.ofPart? = parts.filterMap Component.ofPart? := by
  induction parts with
  | nil => rfl
  | cons part later ih =>
    by_cases void : isVoid part = true
    · rw [List.dropWhile_cons_of_pos void, ih, List.filterMap_cons_none ((isVoid_iff part).mp void)]
    · rw [List.dropWhile_cons_of_neg void]

theorem filterMap_trimmedEnd (parts : List Name) :
    (trimmedEnd parts).filterMap Component.ofPart? = parts.filterMap Component.ofPart? := by
  rw [trimmedEnd, List.filterMap_reverse, filterMap_dropWhile, List.filterMap_reverse,
    List.reverse_reverse]

theorem prefix_trimmedEnd (parts : List Name) : trimmedEnd parts <+: parts :=
  List.rdropWhile_prefix isVoid parts

theorem single_trimmedEnd (parts : List Name) (single : ∀ part ∈ parts, slash ∉ part) :
    ∀ part ∈ trimmedEnd parts, slash ∉ part :=
  fun part member => single part ((prefix_trimmedEnd parts).subset member)

theorem OpensFilled.trimmedEnd {parts : List Name} (opens : OpensFilled parts) :
    OpensFilled (trimmedEnd parts) := by
  intro part first
  obtain ⟨voids, whole⟩ := prefix_trimmedEnd parts
  apply opens
  rw [← whole, List.head?_append, first]
  rfl

theorem filterMap_dropParts (count : Nat) (parts : List Name) :
    (dropParts count parts).filterMap Component.ofPart? =
      (parts.filterMap Component.ofPart?).drop count := by
  induction count, parts using dropParts.induct with
  | case1 parts => rw [dropParts, filterMap_dropWhile, List.drop_zero]
  | case2 count => rfl
  | case3 count part later void ih =>
    rw [dropParts, if_pos void, ih, List.filterMap_cons_none ((isVoid_iff part).mp void)]
  | case4 count part later filled ih =>
    obtain ⟨component, kept⟩ := Option.ne_none_iff_exists'.mp ((isVoid_iff part).not.mp filled)
    rw [dropParts, if_neg filled, ih, List.filterMap_cons_some kept, List.drop_succ_cons]

theorem dropParts_suffix (count : Nat) (parts : List Name) : dropParts count parts <:+ parts := by
  induction count, parts using dropParts.induct with
  | case1 parts =>
    rw [dropParts]
    exact List.dropWhile_suffix isVoid
  | case2 count => exact List.suffix_refl []
  | case3 count part later void ih =>
    rw [dropParts, if_pos void]
    exact ih.trans (List.suffix_cons part later)
  | case4 count part later filled ih =>
    rw [dropParts, if_neg filled]
    exact ih.trans (List.suffix_cons part later)

-- No `.` comes to the front, where it would count.
theorem opensFilled_dropParts (count : Nat) (parts : List Name) :
    OpensFilled (dropParts count parts) := by
  induction count, parts using dropParts.induct with
  | case1 parts =>
    intro part first
    rw [dropParts, Option.mem_def] at first
    have stopped := List.head?_dropWhile_not isVoid parts
    rwa [first] at stopped
  | case2 count => simp [OpensFilled, dropParts]
  | case3 count part later void ih => rwa [dropParts, if_pos void]
  | case4 count part later filled ih => rwa [dropParts, if_neg filled]

theorem components_of_split (path : Path) (first : Name) (later : List Name)
    (pieces : split slash path.octets = first :: later) :
    path.components =
      if path.isAbsolute then .root :: later.filterMap Component.ofPart?
      else if first = hereName then .here :: later.filterMap Component.ofPart?
      else (first :: later).filterMap Component.ofPart? := by
  simp only [components, opening, pieces]
  split
  next => rfl
  next => split <;> rfl

section Joined

variable (parts : List Name) (single : ∀ part ∈ parts, slash ∉ part)

include single

theorem components_rooted : Path.components { octets := slash :: join slash parts } =
    .root :: parts.filterMap Component.ofPart? := by
  by_cases none : parts = []
  · subst none
    rfl
  · have pieces : split slash (slash :: join slash parts) = [] :: parts := by
      rw [split_cons, if_pos rfl, split_join slash parts none single]
    rw [components_of_split { octets := slash :: join slash parts } [] parts pieces]
    rfl

theorem components_led : Path.components { octets := join slash (hereName :: parts) } =
    .here :: parts.filterMap Component.ofPart? := by
  have pieces : split slash (join slash (hereName :: parts)) = hereName :: parts := by
    apply split_join slash _ (by simp)
    exact List.forall_mem_cons.mpr ⟨by decide, single⟩
  have relative : Path.isAbsolute { octets := join slash (hereName :: parts) } = false := by
    rw [isAbsolute, hereName, join_cons_head]
    rfl
  rw [components_of_split { octets := join slash (hereName :: parts) } hereName parts pieces,
    relative]
  simp

theorem components_opened (opens : OpensFilled parts) :
    Path.components { octets := join slash parts } = parts.filterMap Component.ofPart? := by
  cases parts with
  | nil => rfl
  | cons first later =>
    have filled : isVoid first = false := opens first rfl
    rw [← Bool.not_eq_true, isVoid_iff_part, not_or] at filled
    have relative : Path.isAbsolute { octets := join slash (first :: later) } = false := by
      cases first with
      | nil => exact absurd rfl filled.1
      | cons octet rest =>
        have unslashed : slash ∉ octet :: rest := single _ (by simp)
        have other : octet ≠ slash := fun same => unslashed (by simp [same])
        rw [isAbsolute, join_cons_head]
        simpa using other
    rw [components_of_split { octets := join slash (first :: later) } first later
      (split_join slash (first :: later) (by simp) single), relative, if_neg filled.2]
    simp

end Joined

theorem opening_cases (path : Path) :
    (∃ parts, path.opening = (some .root, parts) ∧ ∀ part ∈ parts, slash ∉ part) ∨
    (∃ parts, path.opening = (some .here, parts) ∧ ∀ part ∈ parts, slash ∉ part) ∨
    ∃ parts, path.opening = (none, parts) ∧ (∀ part ∈ parts, slash ∉ part) ∧
      OpensFilled (Path.trimmedEnd parts) := by
  obtain ⟨first, later, pieces⟩ := List.exists_cons_of_ne_nil (split_ne_nil slash path.octets)
  have single : ∀ part ∈ first :: later, slash ∉ part := by
    rw [← pieces]
    exact not_mem_of_mem_split slash path.octets
  have singleLater := (List.forall_mem_cons.mp single).2
  simp only [opening, pieces]
  by_cases absolute : path.isAbsolute = true
  · exact .inl ⟨later, by rw [if_pos absolute], singleLater⟩
  by_cases here : first = hereName
  · exact .inr (.inl ⟨later, by rw [if_neg absolute, if_pos here], singleLater⟩)
  refine .inr (.inr ⟨first :: later, by rw [if_neg absolute, if_neg here], single, ?_⟩)
  by_cases void : first = []
  · -- Only the empty path opens with an empty part that no slash follows.
    have alone : later = [] := by
      by_contra more
      obtain ⟨next, rest, rfl⟩ := List.exists_cons_of_ne_nil more
      apply absolute
      rw [isAbsolute, ← join_split slash path.octets, pieces, void, join_cons_cons]
      rfl
    subst void alone
    simp [OpensFilled, show trimmedEnd [[]] = [] from rfl]
  · apply OpensFilled.trimmedEnd
    rintro part ⟨rfl⟩
    rw [← Bool.not_eq_true, isVoid_iff_part, not_or]
    exact ⟨void, here⟩

theorem components_dropParts (count : Nat) (parts : List Name)
    (single : ∀ part ∈ parts, slash ∉ part) :
    Path.components { octets := join slash (trimmedEnd (dropParts count parts)) } =
      (parts.filterMap Component.ofPart?).drop count := by
  have kept (part : Name) (member : part ∈ dropParts count parts) : slash ∉ part :=
    single part ((dropParts_suffix count parts).subset member)
  rw [components_opened _ (single_trimmedEnd _ kept) (opensFilled_dropParts count parts).trimmedEnd,
    filterMap_trimmedEnd, filterMap_dropParts]

theorem components_withoutComponents (path : Path) (count : Nat) :
    (path.withoutComponents count).components = path.components.drop count := by
  rcases path.opening_cases with
    ⟨parts, opening, single⟩ | ⟨parts, opening, single⟩ | ⟨parts, opening, single, opens⟩
  · have whole : path.components = .root :: parts.filterMap Component.ofPart? := by
      simp [components, opening]
    cases count with
    | zero =>
      simp only [withoutComponents, opening, whole, List.drop_zero,
        components_rooted _ (single_trimmedEnd parts single), filterMap_trimmedEnd]
    | succ count =>
      simp only [withoutComponents, opening, whole, List.drop_succ_cons,
        components_dropParts count parts single]
  · have whole : path.components = .here :: parts.filterMap Component.ofPart? := by
      simp [components, opening]
    cases count with
    | zero =>
      simp only [withoutComponents, opening, whole, List.drop_zero, Component.part,
        components_led _ (single_trimmedEnd parts single), filterMap_trimmedEnd]
    | succ count =>
      simp only [withoutComponents, opening, whole, List.drop_succ_cons,
        components_dropParts count parts single]
  · have whole : path.components = parts.filterMap Component.ofPart? := by
      simp [components, opening]
    cases count with
    | zero =>
      simp only [withoutComponents, opening, whole, List.drop_zero,
        components_opened _ (single_trimmedEnd parts single) opens, filterMap_trimmedEnd]
    | succ count =>
      simp only [withoutComponents, opening, whole, components_dropParts _ parts single]

theorem length_components_le (path : Path) :
    path.components.length ≤ (path.components.filter (· != .root)).length + 1 := by
  have later (parts : List Name) : (parts.filterMap Component.ofPart?).filter (· != .root) =
      parts.filterMap Component.ofPart? := by
    rw [List.filter_eq_self]
    intro component member
    obtain ⟨part, -, kept⟩ := List.mem_filterMap.mp member
    rw [bne_iff_ne]
    rintro rfl
    unfold Component.ofPart? at kept
    split at kept
    next => cases kept
    next => split at kept <;> cases kept
  rw [components, List.filter_append, later]
  cases path.opening.1 <;> simp

theorem grandparent?_cases (path : Path) :
    path.grandparent? = some (path.components.take (path.components.length - 2)) ∨
      path.grandparent? = none ∧ path.components.length ≤ 2 := by
  unfold grandparent?
  dsimp only
  split
  next => exact .inl rfl
  next few =>
    have bound := path.length_components_le
    exact .inr ⟨rfl, by omega⟩

theorem components_displayFrom (root path : Path) (below : root.components <+: path.components) :
    (displayFrom root path).components = path.components.drop (root.components.length - 2) := by
  unfold displayFrom
  rcases root.grandparent?_cases with above | ⟨above, few⟩
  · have within : root.components.take (root.components.length - 2) <+: path.components :=
      (List.take_prefix _ _).trans below
    rw [above]
    dsimp only
    rw [if_pos (List.isPrefixOf_iff_prefix.mpr within), components_withoutComponents,
      List.length_take, Nat.min_eq_left (Nat.sub_le _ _)]
  · rw [above, Nat.sub_eq_zero_of_le few, List.drop_zero]

theorem components_joined_void (name : Name) (proper : name.Proper) :
    (joined { octets := [] } name).components = [.name name] := by
  have counted := Component.ofPart?_of_proper name proper
  have opens : OpensFilled [name] := by
    rintro part ⟨rfl⟩
    simp [isVoid, counted]
  have alone : joined { octets := [] } name = { octets := join slash [name] } := by
    simp [joined, join, List.intercalate]
  rw [alone, components_opened [name] (by simpa using proper.single) opens,
    List.filterMap_cons_some counted, List.filterMap_nil]

theorem components_below_root (root : Path) (names : List Name)
    (proper : ∀ name ∈ names, name.Proper) :
    (root.below names).components = root.components ++ names.map .name := by
  by_cases filled : root.octets ≠ []
  · exact root.components_below filled names proper
  · obtain ⟨octets⟩ := root
    obtain rfl : octets = [] := not_not.mp filled
    cases names with
    | nil => rfl
    | cons name later =>
      obtain ⟨first, others⟩ := List.forall_mem_cons.mp proper
      rw [below_cons, components_below _ (filled_joined _ name first) later others,
        components_joined_void name first]
      rfl

theorem components_display_below (root : Path) (names : List Name)
    (proper : ∀ name ∈ names, name.Proper) :
    (displayFrom root (root.below names)).components =
      root.components.drop (root.components.length - 2) ++ names.map .name := by
  have whole := root.components_below_root names proper
  rw [components_displayFrom root _ (by rw [whole]; exact List.prefix_append _ _), whole,
    List.drop_append_of_le_length (Nat.sub_le _ _)]

theorem compare_displayFrom (root : Path) (first second : List Name)
    (firstProper : ∀ name ∈ first, name.Proper) (secondProper : ∀ name ∈ second, name.Proper) :
    (displayFrom root (root.below first)).compare (displayFrom root (root.below second)) =
      (root.below first).compare (root.below second) := by
  rw [compare_behind _ _ _ _ _ (root.components_display_below first firstProper)
      (root.components_display_below second secondProper),
    compare_behind _ _ _ _ _ (root.components_below_root first firstProper)
      (root.components_below_root second secondProper)]

theorem components_displayFrom_eq_iff (root : Path) (first second : List Name)
    (firstProper : ∀ name ∈ first, name.Proper) (secondProper : ∀ name ∈ second, name.Proper) :
    (displayFrom root (root.below first)).components =
        (displayFrom root (root.below second)).components ↔
      (root.below first).components = (root.below second).components := by
  rw [← compare_eq_iff, compare_displayFrom root first second firstProper secondProper,
    compare_eq_iff]

end Path

end RouteMigration
