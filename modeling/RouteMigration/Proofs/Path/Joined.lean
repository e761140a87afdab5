import RouteMigration.Disk.Resolution
import RouteMigration.Proofs.Text.Joining

set_option autoImplicit false

namespace RouteMigration

structure Name.Proper (name : Name) : Prop where
  filled : name ≠ removedName
  single : slash ∉ name
  printable : 0 ∉ name
  ne_here : name ≠ hereName
  ne_up : name ≠ upName

instance (name : Name) : Decidable name.Proper :=
  decidable_of_iff
    (name ≠ removedName ∧ slash ∉ name ∧ 0 ∉ name ∧ name ≠ hereName ∧ name ≠ upName)
    ⟨fun ⟨filled, single, printable, here, up⟩ => ⟨filled, single, printable, here, up⟩,
      fun ⟨filled, single, printable, here, up⟩ => ⟨filled, single, printable, here, up⟩⟩

theorem Step.ofName_of_proper (name : Name) (proper : name.Proper) :
    Step.ofName name = .child name := by
  simp [Step.ofName, proper.ne_here, proper.ne_up]

theorem Component.ofPart?_of_proper (name : Name) (proper : name.Proper) :
    Component.ofPart? name = some (.name name) := by
  have filled : name ≠ [] := proper.filled
  simp [Component.ofPart?, filled, proper.ne_here, proper.ne_up]

def Step.within (parts : List Name) : List Step :=
  (parts.filter (· ≠ [])).map Step.ofName

theorem Step.ofParts_concat (parts : List Name) (last : Name) :
    Step.ofParts (parts ++ [last]) = Step.within parts ++
      if last = [] then [.asDirectory] else [Step.ofName last] := by
  induction parts with
  | nil => by_cases void : last = [] <;> simp [Step.ofParts, Step.within, void]
  | cons part later ih =>
    have more : Step.ofParts (part :: (later ++ [last])) =
        if part = [] then Step.ofParts (later ++ [last])
        else Step.ofName part :: Step.ofParts (later ++ [last]) := by
      cases later <;> rfl
    rw [List.cons_append, more, ih]
    by_cases void : part = [] <;> simp [Step.within, void]

namespace Path

theorem exists_front (path : Path) (filled : path.octets ≠ []) (name : Name) :
    ∃ front, (path.joined name).octets = front ++ slash :: name ∧
      (path.octets = front ++ [slash] ∨
        path.octets = front ∧ ∃ others last, front = others ++ [last] ∧ last ≠ slash) := by
  obtain ⟨others, last, octets⟩ := (List.eq_nil_or_concat path.octets).resolve_left filled
  rw [List.concat_eq_append] at octets
  by_cases ends : last = slash
  · refine ⟨others, ?_, .inl (by rw [octets, ends])⟩
    simp [joined, octets, ends]
  · refine ⟨path.octets, ?_, .inr ⟨rfl, others, last, octets, ends⟩⟩
    simp [joined, octets, ends]

theorem isAbsolute_joined (path : Path) (filled : path.octets ≠ []) (name : Name) :
    (path.joined name).isAbsolute = path.isAbsolute := by
  obtain ⟨front, joined, octets⟩ := path.exists_front filled name
  rcases octets with ends | ⟨same, others, last, rfl, -⟩
  · cases front <;> simp [isAbsolute, joined, ends]
  · cases others <;> simp [isAbsolute, joined, same]

theorem steps_slashed (path : Path) (front : Octets) (octets : path.octets = front ++ [slash]) :
    path.steps = Step.within (split slash front) ++ [.asDirectory] := by
  rw [steps, octets, split_append_cons, show split slash ([] : Octets) = [[]] from rfl,
    Step.ofParts_concat]
  simp

variable (path : Path) (filled : path.octets ≠ []) (name : Name) (proper : name.Proper)

include filled proper

theorem steps_joined : ∃ lead, (path.steps = lead ∨ path.steps = lead ++ [.asDirectory]) ∧
    (path.joined name).steps = lead ++ [.child name] := by
  obtain ⟨front, joined, octets⟩ := path.exists_front filled name
  have after : (path.joined name).steps = Step.within (split slash front) ++ [.child name] := by
    rw [steps, joined, split_append_cons, split_of_not_mem slash name proper.single,
      Step.ofParts_concat, Step.ofName_of_proper name proper]
    have named : name ≠ [] := proper.filled
    simp [named]
  refine ⟨Step.within (split slash front), ?_, after⟩
  rcases octets with ends | ⟨same, others, last, rfl, unended⟩
  · exact .inr (path.steps_slashed front ends)
  · left
    obtain ⟨pieces, part, split⟩ := exists_split_concat slash last others unended
    rw [steps, same, split, Step.ofParts_concat]
    simp [Step.within]

theorem components_joined :
    (path.joined name).components = path.components ++ [.name name] := by
  obtain ⟨front, joined, octets⟩ := path.exists_front filled name
  have absolute := path.isAbsolute_joined filled name
  obtain ⟨first, later, pieces⟩ := List.exists_cons_of_ne_nil (split_ne_nil slash front)
  have after : split slash (path.joined name).octets = first :: (later ++ [name]) := by
    rw [joined, split_append_cons, pieces, split_of_not_mem slash name proper.single]
    rfl
  have before : ∃ void, split slash path.octets = first :: (later ++ void) ∧
      void.filterMap Component.ofPart? = [] := by
    rcases octets with ends | ⟨same, -⟩
    · refine ⟨[[]], ?_, by simp [Component.ofPart?]⟩
      rw [ends, split_append_cons, pieces]
      rfl
    · exact ⟨[], by rw [same, pieces, List.append_nil], rfl⟩
  obtain ⟨void, before, vanishes⟩ := before
  simp only [components, opening, after, before, absolute]
  have named := Component.ofPart?_of_proper name proper
  by_cases rooted : path.isAbsolute = true
  · simp [rooted, vanishes, named]
  by_cases here : first = hereName
  · simp [rooted, here, vanishes, named]
  · cases part : Component.ofPart? first <;> simp [rooted, here, vanishes, named, part]

theorem fileName?_joined : (path.joined name).fileName? = some name := by
  simp [fileName?, path.components_joined filled name proper]

omit filled in
theorem printable_joined (printable : 0 ∉ path.octets) : 0 ∉ (path.joined name).octets := by
  have plain : (0 : UInt8) ≠ slash := by decide
  unfold joined
  split <;> simp [printable, proper.printable, plain]

omit filled in
theorem filled_joined : (path.joined name).octets ≠ [] := by
  have named : name ≠ [] := proper.filled
  unfold joined
  split <;> simp [named]

omit filled proper in
theorem mem_joined {octet : UInt8} (member : octet ∈ path.octets) :
    octet ∈ (path.joined name).octets := by
  unfold joined
  split <;> simp [member]

omit filled proper in
theorem length_le_joined : path.octets.length ≤ (path.joined name).octets.length := by
  unfold joined
  split <;> simp

end Path

def Path.below (path : Path) (names : List Name) : Path :=
  names.foldl Path.joined path

namespace Path

theorem below_cons (path : Path) (name : Name) (names : List Name) :
    path.below (name :: names) = (path.joined name).below names := rfl

theorem below_concat (path : Path) (names : List Name) (name : Name) :
    path.below (names ++ [name]) = (path.below names).joined name := by
  simp [below]

theorem filled_below (path : Path) (filled : path.octets ≠ []) (names : List Name)
    (proper : ∀ name ∈ names, name.Proper) : (path.below names).octets ≠ [] := by
  induction names generalizing path with
  | nil => exact filled
  | cons name later ih =>
    exact ih (path.joined name) (path.filled_joined name (proper name (by simp)))
      fun other member => proper other (List.mem_cons_of_mem _ member)

theorem components_below (path : Path) (filled : path.octets ≠ []) (names : List Name)
    (proper : ∀ name ∈ names, name.Proper) :
    (path.below names).components = path.components ++ names.map .name := by
  induction names generalizing path with
  | nil => simp [below]
  | cons name later ih =>
    have here := proper name (by simp)
    rw [below_cons, ih (path.joined name) (path.filled_joined name here)
      (fun other member => proper other (List.mem_cons_of_mem _ member)),
      path.components_joined filled name here]
    simp

theorem fileName?_below (path : Path) (filled : path.octets ≠ []) (names : List Name) (name : Name)
    (proper : ∀ other ∈ names ++ [name], other.Proper) :
    (path.below (names ++ [name])).fileName? = some name := by
  simp [fileName?, path.components_below filled (names ++ [name]) proper]

theorem below_inj (path : Path) (filled : path.octets ≠ []) (first second : List Name)
    (firstProper : ∀ name ∈ first, name.Proper) (secondProper : ∀ name ∈ second, name.Proper)
    (same : (path.below first).components = (path.below second).components) : first = second := by
  rw [path.components_below filled first firstProper,
    path.components_below filled second secondProper, List.append_cancel_left_eq] at same
  exact (List.map_inj_right fun _ _ => Component.name.inj).mp same

end Path

end RouteMigration
