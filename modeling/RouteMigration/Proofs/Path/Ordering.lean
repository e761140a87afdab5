import Mathlib.Data.List.Perm.Basic
import Mathlib.Order.Compare
import RouteMigration.Proofs.Migration.Discovery

set_option autoImplicit false

namespace RouteMigration

theorem compareLists_eq_compareLex {A : Type} (compareItems : A → A → Ordering) :
    compareLists compareItems = List.compareLex compareItems := by
  funext first second
  induction first generalizing second with
  | nil =>
    cases second with
    | nil => exact List.compareLex_nil_nil.symm
    | cons other later => exact List.compareLex_nil_cons.symm
  | cons head rest ih =>
    cases second with
    | nil => exact List.compareLex_cons_nil.symm
    | cons other later => rw [compareLists, ih, List.compareLex_cons_cons]

theorem compareLists_append {A : Type} (compareItems : A → A → Ordering)
    (same : ∀ item, compareItems item item = .eq) (lead first second : List A) :
    compareLists compareItems (lead ++ first) (lead ++ second) =
      compareLists compareItems first second := by
  induction lead with
  | nil => rfl
  | cons item later ih => simp [compareLists, same, ih]

instance {A : Type} (compareItems : A → A → Ordering) [Std.TransCmp compareItems] :
    Std.TransCmp (compareLists compareItems) := by
  rw [compareLists_eq_compareLex]
  infer_instance

instance {A : Type} (compareItems : A → A → Ordering) [Std.LawfulEqCmp compareItems] :
    Std.LawfulEqCmp (compareLists compareItems) := by
  rw [compareLists_eq_compareLex]
  infer_instance

instance : Std.TransCmp Name.compare :=
  inferInstanceAs (Std.TransCmp (compareLists (compareOn UInt8.toNat)))

instance : Std.LawfulEqCmp Name.compare :=
  have : Std.LawfulEqCmp (compareOn UInt8.toNat) :=
    ⟨fun same => UInt8.toNat_inj.mp (Std.LawfulEqCmp.eq_of_compare same)⟩
  inferInstanceAs (Std.LawfulEqCmp (compareLists (compareOn UInt8.toNat)))

theorem Component.compare_eq_compareLex : Component.compare =
    compareLex (compareOn Component.rank)
      fun first second => Name.compare first.part second.part := by
  funext first second
  cases first <;> cases second <;> rfl

instance : Std.TransCmp Component.compare := by
  have names : Std.TransCmp fun first second : Component =>
      Name.compare first.part second.part :=
    { eq_swap := Std.OrientedCmp.eq_swap
      isLE_trans := Std.TransCmp.isLE_trans }
  rw [Component.compare_eq_compareLex]
  infer_instance

instance : Std.LawfulEqCmp Component.compare where
  compare_self := by
    intro component
    cases component with
    | name given =>
      have names : Std.LawfulEqCmp Name.compare := inferInstance
      exact names.compare_self
    | root | here | up => rfl
  eq_of_compare := by
    intro first second same
    have names : Std.LawfulEqCmp Name.compare := inferInstance
    cases first <;> cases second <;> first
      | rfl
      | exact congrArg Component.name (names.eq_of_compare same)
      | simp [Component.compare, Component.rank] at same

instance : Std.TransCmp Path.compare :=
  have lists : Std.TransCmp (compareLists Component.compare) := inferInstance
  { eq_swap := lists.eq_swap
    isLE_trans := lists.isLE_trans }

namespace Path

theorem compare_eq_iff (first second : Path) :
    first.compare second = .eq ↔ first.components = second.components := by
  have lists : Std.LawfulEqCmp (compareLists Component.compare) := inferInstance
  exact lists.compare_eq_iff_eq

theorem compare_behind (first second : Path) (lead firstRest secondRest : List Component)
    (firstComponents : first.components = lead ++ firstRest)
    (secondComponents : second.components = lead ++ secondRest) :
    first.compare second = compareLists Component.compare firstRest secondRest := by
  have lawful : Std.LawfulEqCmp Component.compare := inferInstance
  rw [compare, firstComponents, secondComponents,
    compareLists_append _ fun _ => lawful.compare_self]

def Increasing (paths : List Path) : Prop :=
  paths.Pairwise fun first second => first.compare second = .lt

theorem insertOrdered_increasing (path : Path) (paths : List Path) (ordered : Increasing paths) :
    Increasing (insertOrdered path paths) := by
  induction paths with
  | nil => exact List.pairwise_singleton _ _
  | cons next later ih =>
    obtain ⟨before, orderedLater⟩ := List.pairwise_cons.mp ordered
    unfold insertOrdered
    split
    next less =>
      refine List.pairwise_cons.mpr ⟨?_, ordered⟩
      intro other member
      rcases List.mem_cons.mp member with rfl | rest
      · exact less
      · exact Std.TransCmp.lt_trans less (before other rest)
    next same =>
      refine List.pairwise_cons.mpr ⟨?_, orderedLater⟩
      exact fun other member => Std.TransCmp.lt_of_eq_of_lt same (before other member)
    next greater =>
      refine List.pairwise_cons.mpr ⟨?_, ih orderedLater⟩
      intro other member
      rcases mem_of_mem_insertOrdered other path later member with rfl | rest
      · exact Std.OrientedCmp.gt_iff_lt.mp greater
      · exact before other rest

theorem sorted_increasing (paths : List Path) : Increasing (sorted paths) := by
  induction paths with
  | nil => exact List.Pairwise.nil
  | cons path later ih => exact insertOrdered_increasing path (sorted later) ih

theorem mem_insertOrdered (path inserted : Path) (paths : List Path)
    (distinct : ∀ other ∈ paths, other.components = inserted.components → other = inserted)
    (member : path = inserted ∨ path ∈ paths) : path ∈ insertOrdered inserted paths := by
  induction paths with
  | nil => simpa [insertOrdered] using member
  | cons next later ih =>
    unfold insertOrdered
    split
    next => simpa using member
    next same =>
      have equal : next = inserted :=
        distinct next (by simp) ((compare_eq_iff inserted next).mp same).symm
      simpa [equal] using member
    next =>
      have inLater := ih fun other rest => distinct other (List.mem_cons_of_mem _ rest)
      rcases member with rfl | here
      · exact List.mem_cons_of_mem _ (inLater (.inl rfl))
      · rcases List.mem_cons.mp here with rfl | rest
        · exact List.mem_cons_self ..
        · exact List.mem_cons_of_mem _ (inLater (.inr rest))

theorem mem_sorted_iff (path : Path) (paths : List Path)
    (distinct : ∀ first ∈ paths, ∀ second ∈ paths, first.components = second.components →
      first = second) : path ∈ sorted paths ↔ path ∈ paths := by
  refine ⟨mem_of_mem_sorted path paths, ?_⟩
  intro member
  induction paths with
  | nil => simp at member
  | cons next later ih =>
    apply mem_insertOrdered path next (sorted later)
    · intro other rest
      exact distinct other (List.mem_cons_of_mem _ (mem_of_mem_sorted other later rest)) next
        (by simp)
    · refine (List.mem_cons.mp member).imp_right (ih ?_)
      exact fun first firstIn second secondIn => distinct first (List.mem_cons_of_mem _ firstIn)
        second (List.mem_cons_of_mem _ secondIn)

theorem nodup_of_increasing (paths : List Path) (ordered : Increasing paths) : paths.Nodup := by
  refine List.Pairwise.imp ?_ ordered
  rintro first _ less rfl
  simp [(compare_eq_iff first first).mpr rfl] at less

theorem eq_of_increasing (first second : List Path) (firstOrdered : Increasing first)
    (secondOrdered : Increasing second) (members : ∀ path, path ∈ first ↔ path ∈ second) :
    first = second := by
  refine List.Perm.eq_of_pairwise ?_ firstOrdered secondOrdered ?_
  · intro left right _ _ less greater
    have same := Std.TransCmp.lt_trans less greater
    simp [(compare_eq_iff left left).mpr rfl] at same
  · exact (List.perm_ext_iff_of_nodup (nodup_of_increasing first firstOrdered)
      (nodup_of_increasing second secondOrdered)).mpr members

end Path

theorem Disk.increasing_discover (disk : Disk) (config : Config) (patterns : List Glob.Pattern) :
    Path.Increasing (disk.discover config patterns).files := by
  unfold discover
  split
  next => exact List.Pairwise.nil
  next => exact Path.sorted_increasing _

end RouteMigration
