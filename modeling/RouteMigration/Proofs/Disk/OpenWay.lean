import RouteMigration.Proofs.Disk.Tree

set_option autoImplicit false

namespace RouteMigration

def Location.span : Location → Nat
  | [] => 0
  | name :: later => name.length + 1 + Location.span later

theorem Location.span_append (first second : Location) :
    Location.span (first ++ second) = first.span + second.span := by
  induction first with
  | nil => simp [Location.span]
  | cons name later ih => simp [Location.span, ih, Nat.add_assoc]

theorem Location.span_dropLast_le (place : Location) :
    Location.span place.dropLast ≤ place.span := by
  rcases List.eq_nil_or_concat place with rfl | ⟨others, name, rfl⟩
  · exact Nat.le_refl _
  · simp [Location.span_append]

theorem length_join_cons (piece : Name) (later : List Name) :
    (join slash (piece :: later)).length = piece.length + Location.span later := by
  induction later generalizing piece with
  | nil => simp [join, List.intercalate, Location.span]
  | cons next later ih =>
    rw [join_cons_cons, List.length_append, List.length_cons, ih, Location.span]
    omega

theorem Location.length_octets (place : Location) (below : place ≠ []) :
    place.octets.length = place.span := by
  cases place with
  | nil => exact absurd rfl below
  | cons name later =>
    rw [Location.octets, List.length_cons, length_join_cons, Location.span]
    omega

theorem Location.span_le_length (place : Location) : place.span ≤ place.octets.length := by
  by_cases top : place = []
  · simp [top, Location.span]
  · exact Nat.le_of_eq (place.length_octets top).symm

theorem Path.steps_ne_nil (path : Path) : path.steps ≠ [] := by
  rcases List.eq_nil_or_concat (split slash path.octets) with none | ⟨parts, last, pieces⟩
  · exact absurd none (split_ne_nil slash path.octets)
  · rw [steps, pieces, List.concat_eq_append, Step.ofParts_concat]
    by_cases void : last = [] <;> simp [void]

namespace Disk

def Unlinked (disk : Disk) : Prop :=
  ∀ place target, disk.item? place ≠ some (.link target)

theorem Unlinked.kind_ne_link {disk : Disk} (unlinked : disk.Unlinked) {place : Location}
    {item : Item} (held : disk.item? place = some item) : item.kind ≠ .link := by
  cases item with
  | link target => exact absurd held (unlinked place target)
  | file _ _ | directory _ => simp [Item.kind]

def OpenTo (disk : Disk) (place : Location) : Prop :=
  ∀ above mode, above <+: place → disk.item? above = some (.directory mode) →
    mode.searchable = true

theorem OpenTo.above {disk : Disk} {place above : Location} (opens : disk.OpenTo place)
    (prefixed : above <+: place) : disk.OpenTo above :=
  fun higher mode within => opens higher mode (within.trans prefixed)

def OpenAbove (disk : Disk) (place : Location) : Prop :=
  ∀ above name mode, above ++ [name] <+: place → disk.item? above = some (.directory mode) →
    mode.searchable = true

theorem OpenTo.openAbove {disk : Disk} {place : Location} (opens : disk.OpenTo place) :
    disk.OpenAbove place :=
  fun above name mode within => opens above mode ((List.prefix_append above [name]).trans within)

theorem OpenAbove.above {disk : Disk} {place above : Location} (opens : disk.OpenAbove place)
    (prefixed : above <+: place) : disk.OpenAbove above :=
  fun higher name mode within => opens higher name mode (within.trans prefixed)

section Descent

variable (disk : Disk) (tree : disk.Tree) (place : Location) (names : List Name)

include tree

theorem exists_next (name : Name) (item : Item)
    (held : disk.item? (place ++ name :: names) = some item) (plain : item.kind ≠ .link) :
    ∃ next, disk.item? (place ++ [name]) = some next ∧ next.kind ≠ .link := by
  rw [List.append_cons] at held
  by_cases last : names = []
  · subst last
    exact ⟨item, by simpa using held, plain⟩
  · obtain ⟨mode, directory⟩ := tree.exists_above held last
    exact ⟨_, directory, by simp [Item.kind]⟩

theorem advance_descends (followLast : Bool) (item : Item)
    (held : disk.item? (place ++ names) = some item) (plain : item.kind ≠ .link)
    (opens : disk.OpenAbove (place ++ names)) (more : List Step) :
    disk.advance followLast place (names.map .child ++ more) =
      disk.advance followLast (place ++ names) more := by
  induction names generalizing place with
  | nil => simp
  | cons name names ih =>
    obtain ⟨mode, directory⟩ := tree.exists_above held (by simp)
    obtain ⟨next, entry, follows⟩ := disk.exists_next tree place names name item held plain
    have searchable : mode.searchable = true :=
      opens place name mode (by simp [List.prefix_append_right_inj]) directory
    rw [List.append_cons] at held opens ⊢
    have further := ih (place ++ [name]) held opens
    cases next with
    | link target => exact absurd rfl follows
    | file _ _ | directory _ => simpa [advance, directory, searchable, entry] using further

theorem lookUp_of_held (item : Item) (held : disk.item? place = some item)
    (plain : item.kind ≠ .link) (opens : disk.OpenAbove place)
    (short : place.octets.length ≤ pathLimit) : disk.lookUp place = .ok item := by
  have down := disk.advance_descends tree [] place false item held plain opens []
  simp only [List.append_nil, List.nil_append, advance] at down
  simp only [lookUp, Nat.not_lt.mpr short, if_false, down, held]

theorem climb_descends (mode : Mode)
    (held : disk.item? (place ++ names) = some (.directory mode))
    (opens : disk.OpenAbove (place ++ names)) (short : Location.span (place ++ names) ≤ pathLimit)
    (more : List Step) :
    disk.climb place (names.map .child ++ more) = disk.climb (place ++ names) more := by
  induction names generalizing place with
  | nil => simp
  | cons name names ih =>
    obtain ⟨mode', directory⟩ : ∃ mode', disk.item? (place ++ [name]) = some (.directory mode') := by
      by_cases last : names = []
      · subst last
        exact ⟨mode, held⟩
      · exact tree.exists_above (by rwa [List.append_cons] at held) last
    rw [List.append_cons] at held opens short ⊢
    have shortPlace : (Location.octets (place ++ [name])).length ≤ pathLimit := by
      rw [Location.length_octets _ (by simp)]
      rw [Location.span_append] at short
      omega
    have found := disk.lookUp_of_held tree (place ++ [name]) _ directory (by simp [Item.kind])
      (opens.above (List.prefix_append _ _)) shortPlace
    simpa [climb, found] using ih (place ++ [name]) held opens short

end Descent

end Disk

def Step.onward (place : Location) : Step → Location
  | .child name => place ++ [name]
  | .up => place.dropLast
  | .here | .asDirectory => place

namespace Disk

section Unlinked

variable (disk : Disk) (unlinked : disk.Unlinked)

include unlinked

theorem advance_cons_eq_ok_iff (followLast : Bool) (place : Location) (step : Step)
    (later : List Step) (stop : Stop) :
    disk.advance followLast place (step :: later) = .ok stop ↔
      ∃ mode, disk.item? place = some (.directory mode) ∧
        (step = .asDirectory ∨ mode.searchable = true) ∧
        (∀ name, step = .child name → ∃ item, disk.item? (place ++ [name]) = some item) ∧
        disk.advance followLast (step.onward place) later = .ok stop := by
  cases standing : disk.item? place with
  | none => simp [advance, standing]
  | some item =>
    cases item with
    | file _ _ => simp [advance, standing]
    | link _ => simp [advance, standing]
    | directory mode =>
      cases step with
      | asDirectory => simp [advance, standing, Step.onward]
      | here | up =>
        cases searchable : mode.searchable <;> simp [advance, standing, searchable, Step.onward]
      | child name =>
        cases searchable : mode.searchable with
        | false => simp [advance, standing, searchable]
        | true =>
          cases held : disk.item? (place ++ [name]) with
          | none => simp [advance, standing, searchable, held]
          | some item =>
            cases item with
            | link target => exact absurd held (unlinked _ target)
            | file _ _ => simp [advance, standing, searchable, held, Step.onward]
            | directory _ => simp [advance, standing, searchable, held, Step.onward]

theorem advance_eq_ok_iff_followed (place : Location) (steps : List Step) (stop : Stop) :
    disk.advance false place steps = .ok stop ↔ disk.advance true place steps = .ok stop := by
  induction steps generalizing place with
  | nil => rfl
  | cons step later ih => simp only [disk.advance_cons_eq_ok_iff unlinked, ih]

theorem arrived_of_advance (followLast : Bool) (place : Location) (steps : List Step) (stop : Stop)
    (advanced : disk.advance followLast place steps = .ok stop) :
    ∃ last, stop = .arrived last := by
  induction steps generalizing place with
  | nil =>
    cases advanced
    exact ⟨place, rfl⟩
  | cons step later ih =>
    obtain ⟨-, -, -, -, onward⟩ := (disk.advance_cons_eq_ok_iff unlinked _ _ _ _ _).mp advanced
    exact ih _ onward

-- Going up asks only whether the directory that is left may be searched; the others are above what
-- the way ends at, or are left later.
theorem openTo_of_advance (place last : Location) (steps : List Step)
    (advanced : disk.advance true place steps = .ok (.arrived last)) (opens : disk.OpenTo last) :
    disk.OpenTo place := by
  induction steps generalizing place with
  | nil =>
    cases advanced
    exact opens
  | cons step later ih =>
    obtain ⟨mode, standing, searchable, -, onward⟩ :=
      (disk.advance_cons_eq_ok_iff unlinked _ _ _ _ _).mp advanced
    have further := ih _ onward
    cases step with
    | here => exact further
    | asDirectory => exact further
    | child name => exact further.above (List.prefix_append _ _)
    | up =>
      intro above other within held
      by_cases own : above = place
      · subst own
        cases standing.symm.trans held
        simpa using searchable
      · refine further above other ?_ held
        rcases List.eq_nil_or_concat place with rfl | ⟨others, name, rfl⟩
        · exact absurd (List.prefix_nil.mp within) own
        · rw [List.concat_eq_append] at within own
          simpa [Step.onward] using (List.prefix_concat_iff.mp within).resolve_left own

-- The bound holds all the way, as going up writes `..` instead of taking a name away.
theorem climb_of_advance (tree : disk.Tree) (place last : Location) (steps : List Step)
    (advanced : disk.advance true place steps = .ok (.arrived last)) (opens : disk.OpenTo last)
    (short : Location.span (place ++ Step.names steps) ≤ pathLimit) :
    disk.climb place steps = .ok (.arrived last) := by
  induction steps generalizing place with
  | nil =>
    cases advanced
    rfl
  | cons step later ih =>
    obtain ⟨mode, standing, -, entry, onward⟩ :=
      (disk.advance_cons_eq_ok_iff unlinked _ _ _ _ _).mp advanced
    cases step with
    | here => exact ih place onward short
    | asDirectory => exact ih place onward short
    | up =>
      apply ih place.dropLast onward
      have rest : Step.names (.up :: later) = upName :: Step.names later := rfl
      rw [rest, List.append_cons, Location.span_append, Location.span_append] at short
      rw [Location.span_append]
      have fewer := place.span_dropLast_le
      omega
    | child name =>
      obtain ⟨item, held⟩ := entry name rfl
      have rest : Step.names (.child name :: later) = name :: Step.names later := rfl
      rw [rest, List.append_cons] at short
      have shortPlace : (Location.octets (place ++ [name])).length ≤ pathLimit := by
        rw [Location.length_octets _ (by simp)]
        rw [Location.span_append] at short
        omega
      have found := disk.lookUp_of_held tree (place ++ [name]) item held
        (unlinked.kind_ne_link held) (disk.openTo_of_advance unlinked _ _ _ onward opens).openAbove
        shortPlace
      have further := ih (place ++ [name]) onward short
      simp only [climb, found]
      cases item with
      | link target => exact absurd held (unlinked _ target)
      | directory _ => exact further
      | file _ _ =>
        cases later with
        | nil => simpa [climb] using further
        | cons next later =>
          obtain ⟨_, directory, -⟩ :=
            (disk.advance_cons_eq_ok_iff unlinked _ _ _ _ _).mp onward
          cases held.symm.trans directory

theorem advance_of_locate (path : Path) (place : Location)
    (located : disk.locate true path = .ok place) :
    disk.advance true (disk.startOf path) path.steps = .ok (.arrived place) := by
  obtain ⟨-, -, -, resolved⟩ := locate_eq_ok_iff.mp located
  rcases throughLinks_cases resolved with arrived | ⟨_, _, _, _, _, linked, -⟩
  · exact arrived
  · obtain ⟨last, none⟩ := disk.arrived_of_advance unlinked _ _ _ _ linked
    cases none

theorem exists_place_of_joined (path : Path) (filled : path.octets ≠ []) (name : Name)
    (proper : name.Proper) (place : Location)
    (located : disk.locate true (path.joined name) = .ok place) :
    ∃ above, disk.locate true path = .ok above ∧ place = above ++ [name] := by
  obtain ⟨printable, -, short, -⟩ := locate_eq_ok_iff.mp located
  obtain ⟨lead, steps, joined⟩ := path.steps_joined filled name proper
  have start : disk.startOf (path.joined name) = disk.startOf path := by
    simp only [startOf, path.isAbsolute_joined filled name]
  have advanced := disk.advance_of_locate unlinked _ place located
  rw [joined, start, advance_append] at advanced
  cases led : disk.advance true (disk.startOf path) lead with
  | error cause => simp [led] at advanced
  | ok stop =>
    obtain ⟨above, rfl⟩ := disk.arrived_of_advance unlinked _ _ _ _ led
    simp only [led] at advanced
    obtain ⟨mode, directory, -, -, onward⟩ :=
      (disk.advance_cons_eq_ok_iff unlinked _ _ _ _ _).mp advanced
    cases onward
    have reached : disk.advance true (disk.startOf path) path.steps = .ok (.arrived above) := by
      rcases steps with same | slashed
      · rw [same, led]
      · rw [slashed, advance_append, led]
        simp [advance, directory]
    refine ⟨above, locate_eq_ok_iff.mpr ⟨?_, filled, ?_, ?_⟩, rfl⟩
    · exact fun member => printable (path.mem_joined name member)
    · exact Nat.le_trans (path.length_le_joined name) short
    · rw [resolve, throughLinks, reached]

theorem place_below (path : Path) (filled : path.octets ≠ []) (names : List Name)
    (proper : ∀ name ∈ names, name.Proper) (base place : Location)
    (root : disk.locate true path = .ok base)
    (located : disk.locate true (path.below names) = .ok place) : place = base ++ names := by
  induction names using List.reverseRecOn generalizing place with
  | nil =>
    cases root.symm.trans located
    exact (List.append_nil base).symm
  | append_singleton names name ih =>
    have properNames : ∀ other ∈ names, other.Proper := fun other member =>
      proper other (List.mem_append_left _ member)
    have filledBelow : (path.below names).octets ≠ [] := path.filled_below filled names properNames
    rw [Path.below_concat] at located
    obtain ⟨above, locatedAbove, rfl⟩ := disk.exists_place_of_joined unlinked _ filledBelow name
      (proper name (by simp)) place located
    rw [ih properNames above locatedAbove, List.append_assoc]

theorem kindAt_of_status (path : Path) (place : Location) (item : Item)
    (standing : disk.status path = .ok (place, item)) : disk.kindAt path = .ok item.kind := by
  obtain ⟨located, held⟩ := locate_of_status standing
  obtain ⟨printable, filled, short, -⟩ := locate_eq_ok_iff.mp located
  have itself := (disk.advance_eq_ok_iff_followed unlinked _ _ _).mpr
    (disk.advance_of_locate unlinked path place located)
  have found : disk.locate false path = .ok place := by
    refine locate_eq_ok_iff.mpr ⟨printable, filled, short, ?_⟩
    rw [resolve, throughLinks, itself]
  simp only [kindAt, found, held]

theorem canonical_of_locate (tree : disk.Tree) (path : Path) (place : Location)
    (located : disk.locate true path = .ok place) (opens : disk.OpenTo place)
    (short : (path.absolute disk.workingDirectory).octets.length ≤ pathLimit) :
    disk.canonical path = .ok place := by
  obtain ⟨printable, filled, -, -⟩ := locate_eq_ok_iff.mp located
  have advanced := disk.advance_of_locate unlinked path place located
  have spelled : Location.span (disk.startOf path ++ Step.names path.steps) ≤ pathLimit := by
    rw [absolute_eq_lexicalPlace] at short
    rw [path.names_steps]
    exact Nat.le_trans (Location.span_le_length _) short
  have climbed := disk.climb_of_advance unlinked tree _ place path.steps advanced opens spelled
  have placed : (path.isAbsolute || disk.hasWorkingDirectory) = true := by
    cases absolute : path.isAbsolute with
    | true => rfl
    | false =>
      obtain ⟨mode, directory⟩ :=
        disk.exists_directory_of_advance true _ _ _ path.steps_ne_nil advanced
      simp only [startOf, absolute, Bool.false_eq_true, if_false] at directory
      exact tree.hasWorkingDirectory _ directory
  rw [disk.canonical_of_placed path printable filled placed]
  rw [throughLinks, climbed]

end Unlinked

end Disk

end RouteMigration
