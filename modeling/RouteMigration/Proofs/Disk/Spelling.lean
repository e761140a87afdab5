import RouteMigration.Proofs.Path.Names

set_option autoImplicit false

namespace RouteMigration

namespace Path

theorem isAbsolute_below (path : Path) (filled : path.octets ≠ []) (names : List Name)
    (proper : ∀ name ∈ names, name.Proper) :
    (path.below names).isAbsolute = path.isAbsolute := by
  induction names generalizing path with
  | nil => rfl
  | cons name later ih =>
    rw [below_cons, ih _ (path.filled_joined name (proper name (by simp)))
      fun other member => proper other (List.mem_cons_of_mem _ member),
      path.isAbsolute_joined filled name]

theorem names_below (path : Path) (filled : path.octets ≠ []) (names : List Name)
    (proper : ∀ name ∈ names, name.Proper) : (path.below names).names = path.names ++ names := by
  induction names generalizing path with
  | nil => simp [below]
  | cons name later ih =>
    have here := proper name (by simp)
    rw [below_cons, ih _ (path.filled_joined name here)
      fun other member => proper other (List.mem_cons_of_mem _ member),
      path.names_joined filled name here, List.append_assoc]
    rfl

theorem printable_below (path : Path) (printable : 0 ∉ path.octets) (names : List Name)
    (proper : ∀ name ∈ names, name.Proper) : 0 ∉ (path.below names).octets := by
  induction names generalizing path with
  | nil => exact printable
  | cons name later ih =>
    exact ih _ (path.printable_joined name (proper name (by simp)) printable)
      fun other member => proper other (List.mem_cons_of_mem _ member)

theorem condensed_below (path : Path) (filled : path.octets ≠ []) (names : List Name)
    (proper : ∀ name ∈ names, name.Proper) (deeper : names ≠ []) :
    Step.condensed (path.below names).steps = (path.below names).names.map Step.ofName := by
  obtain ⟨others, name, rfl⟩ := (List.eq_nil_or_concat names).resolve_left deeper
  rw [List.concat_eq_append] at proper ⊢
  have above : ∀ other ∈ others, other.Proper := fun other member =>
    proper other (List.mem_append_left _ member)
  rw [below_concat]
  exact condensed_joined _ (path.filled_below filled others above) name (proper name (by simp))

end Path

theorem Step.map_ofName (names : List Name) (proper : ∀ name ∈ names, name.Proper) :
    names.map Step.ofName = names.map .child :=
  List.map_congr_left fun name member => Step.ofName_of_proper name (proper name member)

namespace Disk

section Start

variable (disk : Disk)

theorem exists_advance_of_locate (path : Path) (place : Location)
    (located : disk.locate true path = .ok place) :
    ∃ stop, disk.advance true (disk.startOf path) path.steps = .ok stop := by
  obtain ⟨-, -, -, resolved⟩ := locate_eq_ok_iff.mp located
  rcases throughLinks_cases resolved with arrived | ⟨_, _, _, _, _, linked, -⟩
  · exact ⟨_, arrived⟩
  · exact ⟨_, linked⟩

theorem exists_workingDirectory (path : Path) (place : Location)
    (located : disk.locate true path = .ok place) (relative : path.isAbsolute = false) :
    ∃ mode, disk.item? disk.workingDirectory = some (.directory mode) := by
  obtain ⟨stop, advanced⟩ := disk.exists_advance_of_locate path place located
  simp only [startOf, relative, Bool.false_eq_true, if_false] at advanced
  exact disk.exists_directory_of_advance true _ _ stop path.steps_ne_nil advanced

theorem searchable_of_advance (tree : disk.Tree) (followLast : Bool) (place : Location)
    (names : List Name) (more : List Step) (stop : Stop) (item : Item)
    (held : disk.item? (place ++ names) = some item) (plain : item.kind ≠ .link)
    (advanced : disk.advance followLast place (names.map .child ++ more) = .ok stop)
    (above : List Name) (name : Name) (mode : Mode) (within : above ++ [name] <+: names)
    (directory : disk.item? (place ++ above) = some (.directory mode)) :
    mode.searchable = true := by
  induction names generalizing place above with
  | nil => simp at within
  | cons first names ih =>
    obtain ⟨next, entry, follows⟩ := disk.exists_next tree place names first item held plain
    obtain ⟨own, standing⟩ := tree.exists_parent entry
    cases searchable : own.searchable with
    | false => simp [advance, standing, searchable] at advanced
    | true =>
      cases above with
      | nil =>
        rw [List.append_nil, standing] at directory
        cases directory
        exact searchable
      | cons second above =>
        rw [List.cons_append, List.cons_prefix_cons] at within
        obtain ⟨rfl, within⟩ := within
        have further : disk.advance followLast (place ++ [second]) (names.map .child ++ more) =
            .ok stop := by
          cases next with
          | link target => exact absurd rfl follows
          | file _ _ | directory _ => simpa [advance, standing, searchable, entry] using advanced
        rw [List.append_cons] at held directory
        exact ih (place ++ [second]) held further above within directory

theorem openAbove_of_locate (tree : disk.Tree) (path : Path) (reached place : Location)
    (names : List Name) (mode : Mode) (held : disk.item? place = some (.directory mode))
    (absolute : path.isAbsolute = true) (spelled : path.names = place ++ names)
    (located : disk.locate true path = .ok reached) : disk.OpenAbove place := by
  obtain ⟨stop, advanced⟩ := disk.exists_advance_of_locate path reached located
  obtain ⟨still, -, condensed⟩ := Step.exists_condensed_eq path.steps
  rw [path.moving_steps, spelled, List.map_append,
    Step.map_ofName place (tree.proper_of_item? held), List.append_assoc] at condensed
  have down := disk.advance_condensed true (disk.startOf path) path.steps
  rw [advanced, condensed, startOf, if_pos absolute] at down
  intro above name aboveMode within directory
  exact disk.searchable_of_advance tree true [] place _ _ _ held (by simp [Item.kind]) down above
    name aboveMode within directory

/-- Going down to the working directory by its names is as good as starting there. -/
def Descends (travel : Location → List Step → Except AccessError Stop) : Prop :=
  ∀ more, travel [] (disk.workingDirectory.map Step.ofName ++ more) =
    travel disk.workingDirectory more

def wayOf (travel : Location → List Step → Except AccessError Stop) (path : Path) :
    Except AccessError Location :=
  throughLinks travel linkLimit (disk.startOf path) (path.names.map Step.ofName)

theorem wayOf_of_relative (travel : Location → List Step → Except AccessError Stop)
    (descends : disk.Descends travel) (path : Path) (relative : path.isAbsolute = false) :
    disk.wayOf travel path =
      throughLinks travel linkLimit [] ((disk.lexicalPlace path).map Step.ofName) := by
  simp only [wayOf, lexicalPlace, startOf, relative, Bool.false_eq_true, if_false, List.map_append]
  unfold throughLinks
  rw [descends]

theorem wayOf_of_absolute (travel : Location → List Step → Except AccessError Stop) (path : Path)
    (absolute : path.isAbsolute = true) : disk.wayOf travel path =
      throughLinks travel linkLimit [] ((disk.lexicalPlace path).map Step.ofName) := by
  simp only [wayOf, lexicalPlace, startOf, absolute, if_true, List.nil_append]

theorem wayOf_congr (travel : Location → List Step → Except AccessError Stop) (first second : Path)
    (same : disk.lexicalPlace first = disk.lexicalPlace second)
    (descends : first.isAbsolute ≠ second.isAbsolute → disk.Descends travel) :
    disk.wayOf travel first = disk.wayOf travel second := by
  by_cases alike : first.isAbsolute = second.isAbsolute
  · have start : disk.startOf first = disk.startOf second := by simp only [startOf, alike]
    have names : first.names = second.names := by
      rw [lexicalPlace, lexicalPlace, start] at same
      exact List.append_cancel_left same
    rw [wayOf, wayOf, start, names]
  · have whole (path : Path) : disk.wayOf travel path =
        throughLinks travel linkLimit [] ((disk.lexicalPlace path).map Step.ofName) := by
      cases absolute : path.isAbsolute with
      | true => exact disk.wayOf_of_absolute travel path absolute
      | false => exact disk.wayOf_of_relative travel (descends alike) path absolute
    rw [whole first, whole second, same]

theorem wayOf_of_locate (path : Path) (place : Location)
    (located : disk.locate true path = .ok place) :
    disk.wayOf (disk.advance true) path = .ok place := by
  obtain ⟨-, -, -, resolved⟩ := locate_eq_ok_iff.mp located
  obtain ⟨still, stays, condensed⟩ := Step.exists_condensed_eq path.steps
  rw [resolve, ← throughLinks_condensed (disk.advance_condensed true), condensed] at resolved
  have led := disk.throughLinks_of_still _ _ place _ still stays resolved
  rwa [path.moving_steps] at led

end Start

/-- Two spellings of a directory that have one absolute form and can be looked up. -/
structure Respelled (disk : Disk) (first second : Path) : Prop where
  tree : disk.Tree
  firstStanding : ∃ base mode, disk.status first = .ok (base, .directory mode)
  secondStanding : ∃ base mode, disk.status second = .ok (base, .directory mode)
  same : first.absolute disk.workingDirectory = second.absolute disk.workingDirectory

namespace Respelled

variable {disk : Disk} {first second : Path} (respelled : disk.Respelled first second)

include respelled

theorem symm : disk.Respelled second first where
  tree := respelled.tree
  firstStanding := respelled.secondStanding
  secondStanding := respelled.firstStanding
  same := respelled.same.symm

theorem filled : first.octets ≠ [] := by
  obtain ⟨base, mode, standing⟩ := respelled.firstStanding
  exact (locate_eq_ok_iff.mp (locate_of_status standing).1).2.1

theorem printable : 0 ∉ first.octets := by
  obtain ⟨base, mode, standing⟩ := respelled.firstStanding
  exact (locate_eq_ok_iff.mp (locate_of_status standing).1).1

theorem writable_lexicalPlace : ∀ name ∈ disk.lexicalPlace first, name.Writable := by
  intro name member
  rw [lexicalPlace, startOf, List.mem_append] at member
  rcases member with above | below
  · cases absolute : first.isAbsolute with
    | true => simp [absolute] at above
    | false =>
      obtain ⟨base, mode, standing⟩ := respelled.firstStanding
      obtain ⟨_, held⟩ :=
        disk.exists_workingDirectory first base (locate_of_status standing).1 absolute
      rw [absolute] at above
      have proper := respelled.tree.proper_of_item? held name (by simpa using above)
      exact ⟨proper.filled, proper.single⟩
  · exact first.writable_of_mem_names name below

theorem lexicalPlace_eq : disk.lexicalPlace first = disk.lexicalPlace second := by
  apply Location.path_inj _ _ respelled.writable_lexicalPlace respelled.symm.writable_lexicalPlace
  rw [← absolute_eq_lexicalPlace, ← absolute_eq_lexicalPlace, respelled.same]

theorem descends_of_relative (relative : first.isAbsolute = false)
    (absolute : second.isAbsolute = true) :
    (∀ followLast, disk.Descends (disk.advance followLast)) ∧ disk.Descends disk.climb := by
  obtain ⟨base, _, standing⟩ := respelled.firstStanding
  obtain ⟨mode, held⟩ :=
    disk.exists_workingDirectory first base (locate_of_status standing).1 relative
  obtain ⟨other, _, otherStanding⟩ := respelled.secondStanding
  have located := (locate_of_status otherStanding).1
  have spelled : second.names = disk.workingDirectory ++ first.names := by
    have lexical := respelled.lexicalPlace_eq
    simp only [lexicalPlace, startOf, relative, absolute, Bool.false_eq_true, if_false, if_true,
      List.nil_append] at lexical
    exact lexical.symm
  have opens : disk.OpenAbove disk.workingDirectory :=
    disk.openAbove_of_locate respelled.tree second other _ first.names mode held absolute spelled
      located
  have short : Location.span disk.workingDirectory ≤ pathLimit := by
    have length := second.span_names_le absolute
    have limit := (locate_eq_ok_iff.mp located).2.2.1
    rw [spelled, Location.span_append] at length
    omega
  have names := Step.map_ofName _ (respelled.tree.proper_of_item? held)
  constructor
  · intro followLast more
    rw [names]
    exact disk.advance_descends respelled.tree [] _ followLast _ held (by simp [Item.kind]) opens
      more
  · intro more
    rw [names]
    exact disk.climb_descends respelled.tree [] _ mode held opens short more

theorem descends (different : first.isAbsolute ≠ second.isAbsolute) :
    (∀ followLast, disk.Descends (disk.advance followLast)) ∧ disk.Descends disk.climb := by
  cases firstAbsolute : first.isAbsolute with
  | false =>
    cases secondAbsolute : second.isAbsolute with
    | false => exact absurd (firstAbsolute.trans secondAbsolute.symm) different
    | true => exact respelled.descends_of_relative firstAbsolute secondAbsolute
  | true =>
    cases secondAbsolute : second.isAbsolute with
    | false => exact respelled.symm.descends_of_relative secondAbsolute firstAbsolute
    | true => exact absurd (firstAbsolute.trans secondAbsolute.symm) different

theorem lexicalPlace_below (names : List Name) (proper : ∀ name ∈ names, name.Proper) :
    disk.lexicalPlace (first.below names) = disk.lexicalPlace first ++ names := by
  simp only [lexicalPlace, startOf, first.isAbsolute_below respelled.filled names proper,
    first.names_below respelled.filled names proper, List.append_assoc]

theorem lexicalPlace_below_eq (names : List Name) (proper : ∀ name ∈ names, name.Proper) :
    disk.lexicalPlace (first.below names) = disk.lexicalPlace (second.below names) := by
  rw [respelled.lexicalPlace_below names proper, respelled.lexicalPlace_eq,
    respelled.symm.lexicalPlace_below names proper]

theorem wayOf_below (names : List Name) (proper : ∀ name ∈ names, name.Proper) :
    (∀ followLast, disk.wayOf (disk.advance followLast) (first.below names) =
      disk.wayOf (disk.advance followLast) (second.below names)) ∧
    disk.wayOf disk.climb (first.below names) = disk.wayOf disk.climb (second.below names) := by
  have lexical := respelled.lexicalPlace_below_eq names proper
  have different : (first.below names).isAbsolute ≠ (second.below names).isAbsolute →
      first.isAbsolute ≠ second.isAbsolute := by
    rw [first.isAbsolute_below respelled.filled names proper,
      second.isAbsolute_below respelled.symm.filled names proper]
    exact id
  constructor
  · intro followLast
    exact disk.wayOf_congr _ _ _ lexical fun mixed =>
      (respelled.descends (different mixed)).1 followLast
  · exact disk.wayOf_congr _ _ _ lexical fun mixed => (respelled.descends (different mixed)).2

theorem locate_below (followLast : Bool) (names : List Name)
    (proper : ∀ name ∈ names, name.Proper) (deeper : names ≠ [])
    (short : (first.below names).octets.length ≤ pathLimit)
    (otherShort : (second.below names).octets.length ≤ pathLimit) :
    disk.locate followLast (first.below names) = disk.locate followLast (second.below names) := by
  have whole {root other : Path} (respelled : disk.Respelled root other)
      (short : (root.below names).octets.length ≤ pathLimit) :
      disk.locate followLast (root.below names) =
        disk.wayOf (disk.advance followLast) (root.below names) := by
    have printable := root.printable_below respelled.printable names proper
    have filled := root.filled_below respelled.filled names proper
    simp only [locate, printable, filled, Nat.not_lt.mpr short, if_false, resolve, wayOf]
    rw [← throughLinks_condensed (disk.advance_condensed followLast),
      root.condensed_below respelled.filled names proper deeper]
  rw [whole respelled short, whole respelled.symm otherShort,
    (respelled.wayOf_below names proper).1 followLast]

theorem placed : (first.isAbsolute || disk.hasWorkingDirectory) = true := by
  cases absolute : first.isAbsolute with
  | true => rfl
  | false =>
    obtain ⟨base, _, standing⟩ := respelled.firstStanding
    obtain ⟨mode, held⟩ :=
      disk.exists_workingDirectory first base (locate_of_status standing).1 absolute
    exact respelled.tree.hasWorkingDirectory _ held

theorem canonical_below (names : List Name) (proper : ∀ name ∈ names, name.Proper)
    (deeper : names ≠ []) :
    disk.canonical (first.below names) = disk.canonical (second.below names) := by
  have whole {root other : Path} (respelled : disk.Respelled root other) :
      disk.canonical (root.below names) = disk.wayOf disk.climb (root.below names) := by
    rw [disk.canonical_of_placed _ (root.printable_below respelled.printable names proper)
      (root.filled_below respelled.filled names proper)
      (by rw [root.isAbsolute_below respelled.filled names proper]; exact respelled.placed)]
    rw [← throughLinks_condensed disk.climb_condensed,
      root.condensed_below respelled.filled names proper deeper, wayOf]
  rw [whole respelled, whole respelled.symm, (respelled.wayOf_below names proper).2]

theorem standing (base : Location) (mode : Mode)
    (standing : disk.status first = .ok (base, .directory mode)) :
    disk.status second = .ok (base, .directory mode) := by
  obtain ⟨other, otherMode, otherStanding⟩ := respelled.secondStanding
  obtain ⟨located, held⟩ := locate_of_status standing
  obtain ⟨otherLocated, -⟩ := locate_of_status otherStanding
  have way := (respelled.wayOf_below [] (by simp)).1 true
  have same : (Except.ok base : Except AccessError Location) = .ok other := by
    rw [← disk.wayOf_of_locate first base located, ← disk.wayOf_of_locate second other otherLocated]
    exact way
  cases same
  exact status_of_locate otherLocated held

theorem canonical_eq_ok_iff (base : Location) (mode : Mode)
    (directory : disk.item? base = some (.directory mode)) :
    disk.canonical first = .ok base ↔ disk.wayOf disk.climb first = .ok base := by
  obtain ⟨still, stays, condensed⟩ := Step.exists_condensed_eq first.steps
  rw [disk.canonical_of_placed first respelled.printable respelled.filled respelled.placed,
    ← throughLinks_condensed disk.climb_condensed, condensed,
    disk.throughLinks_append_still _ _ base _ still stays mode directory, first.moving_steps, wayOf]

theorem canonical (base : Location) (mode : Mode)
    (standing : disk.status first = .ok (base, .directory mode))
    (reached : disk.canonical first = .ok base) : disk.canonical second = .ok base := by
  obtain ⟨-, held⟩ := locate_of_status standing
  have way := (respelled.wayOf_below [] (by simp)).2
  rw [respelled.symm.canonical_eq_ok_iff base mode held]
  rw [respelled.canonical_eq_ok_iff base mode held] at reached
  exact way.symm.trans reached

end Respelled

end Disk

end RouteMigration
