import RouteMigration.Shape.Basic

set_option autoImplicit false

namespace RouteMigration

inductive Segment where
  | kept (c : Char)
  | found (occurrence : Text)
  deriving DecidableEq

namespace Segment

def source : Segment → Text
  | .kept c => [c]
  | .found occurrence => occurrence

def rewritten (replacement : Text) : Segment → Text
  | .kept c => [c]
  | .found _ => replacement

@[simp] theorem source_kept (text : Text) : (text.map Segment.kept).flatMap source = text := by
  simp [List.flatMap_map, source, List.flatMap_singleton']

@[simp] theorem rewritten_kept (replacement text : Text) :
    (text.map Segment.kept).flatMap (rewritten replacement) = text := by
  simp [List.flatMap_map, rewritten, List.flatMap_singleton']

end Segment

namespace Shape

-- The characters of an occurrence are passed over one by one, so the scan follows the text.
def scan (shape : Shape) (done : List Segment) : Nat → Text → List Segment
  | _, [] => done.reverse
  | passed + 1, _ :: rest => scan shape done passed rest
  | 0, c :: rest =>
    match shape.width? (c :: rest) with
    | some (width + 1) => scan shape (.found ((c :: rest).take (width + 1)) :: done) width rest
    | _ => scan shape (.kept c :: done) 0 rest

def segments (shape : Shape) (text : Text) : List Segment :=
  scan shape [] 0 text

def replaceAll (shape : Shape) (replacement text : Text) : Text :=
  (shape.segments text).flatMap (Segment.rewritten replacement)

theorem scan_done (shape : Shape) (done : List Segment) (passed : Nat) (text : Text) :
    scan shape done passed text = done.reverse ++ scan shape [] passed text := by
  induction text generalizing done passed with
  | nil => simp [scan]
  | cons c rest ih =>
    cases passed with
    | succ passed => simp only [scan]; exact ih done passed
    | zero =>
      simp only [scan]
      split
      · rw [ih, ih [_]]; simp
      · rw [ih, ih [_]]; simp

theorem scan_passed (shape : Shape) (passed : Nat) (text : Text) :
    scan shape [] passed text = shape.segments (text.drop passed) := by
  induction text generalizing passed with
  | nil => simp [segments, scan]
  | cons c rest ih =>
    cases passed with
    | zero => rfl
    | succ passed => simpa [scan] using ih passed

theorem segments_nil (shape : Shape) : shape.segments [] = [] := rfl

theorem segments_found (shape : Shape) (c : Char) (rest : Text) (width : Nat)
    (measured : shape.width? (c :: rest) = some (width + 1)) :
    shape.segments (c :: rest) =
      .found ((c :: rest).take (width + 1)) :: shape.segments ((c :: rest).drop (width + 1)) := by
  simp only [segments, scan, measured]
  rw [scan_done, scan_passed]
  simp [segments]

theorem segments_kept (shape : Shape) (c : Char) (rest : Text)
    (measured : ∀ width, shape.width? (c :: rest) ≠ some (width + 1)) :
    shape.segments (c :: rest) = .kept c :: shape.segments rest := by
  simp only [segments, scan]
  rw [scan_done]
  simp

theorem segments_cons (shape : Shape) (c : Char) (rest : Text) :
    (∃ width, shape.width? (c :: rest) = some (width + 1) ∧
      shape.segments (c :: rest) =
        .found ((c :: rest).take (width + 1)) :: shape.segments ((c :: rest).drop (width + 1))) ∨
    ((∀ width, shape.width? (c :: rest) ≠ some (width + 1)) ∧
      shape.segments (c :: rest) = .kept c :: shape.segments rest) := by
  by_cases measured : ∃ width, shape.width? (c :: rest) = some (width + 1)
  · obtain ⟨width, measured⟩ := measured
    exact .inl ⟨width, measured, shape.segments_found c rest width measured⟩
  · have never : ∀ width, shape.width? (c :: rest) ≠ some (width + 1) :=
      fun width found => measured ⟨width, found⟩
    exact .inr ⟨never, shape.segments_kept c rest never⟩

theorem scanInduction (shape : Shape) {motive : Text → Prop} (nil : motive [])
    (found : ∀ part rest, part ≠ [] → shape.width? (part ++ rest) = some part.length →
      motive rest → motive (part ++ rest))
    (kept : ∀ c rest, (∀ width, shape.width? (c :: rest) ≠ some (width + 1)) →
      motive rest → motive (c :: rest)) (text : Text) : motive text := by
  induction bound : text.length using Nat.strongRecOn generalizing text with
  | _ size ih =>
    cases text with
    | nil => exact nil
    | cons c rest =>
      rcases shape.segments_cons c rest with ⟨width, measured, -⟩ | ⟨unmatched, -⟩
      · have fits := shape.width?_le _ _ measured
        have length : ((c :: rest).take (width + 1)).length = width + 1 := by
          rw [List.length_take, Nat.min_eq_left fits]
        rw [← List.take_append_drop (width + 1) (c :: rest)] at measured ⊢
        apply found
        · simp
        · rw [measured, length]
        · refine ih _ ?_ _ rfl
          rw [← bound, List.length_drop, List.length_cons]
          omega
      · exact kept c rest unmatched (ih rest.length (by simp [← bound]) rest rfl)

theorem segments_measured (shape : Shape) (part rest : Text) (filled : part ≠ [])
    (measured : shape.width? (part ++ rest) = some part.length) :
    shape.segments (part ++ rest) = .found part :: shape.segments rest := by
  obtain ⟨c, tail, rfl⟩ := List.exists_cons_of_ne_nil filled
  have step := shape.segments_found c (tail ++ rest) tail.length measured
  rwa [← List.cons_append, ← List.length_cons, List.take_left, List.drop_left] at step

theorem spells_of_measured (shape : Shape) (part rest : Text)
    (measured : shape.width? (part ++ rest) = some part.length) : shape.Spells part := by
  have spelled := shape.spells_take _ _ measured
  rwa [List.take_left] at spelled

theorem source_segments (shape : Shape) (text : Text) :
    (shape.segments text).flatMap Segment.source = text := by
  induction text using shape.scanInduction with
  | nil => simp [segments_nil]
  | found part rest filled measured ih =>
    rw [shape.segments_measured part rest filled measured, List.flatMap_cons, ih]
    rfl
  | kept c rest unmatched ih =>
    rw [shape.segments_kept c rest unmatched, List.flatMap_cons, ih]
    rfl

theorem spells_of_found (shape : Shape) (text occurrence : Text)
    (member : .found occurrence ∈ shape.segments text) : shape.Spells occurrence := by
  induction text using shape.scanInduction with
  | nil => simp [segments_nil] at member
  | found part rest filled measured ih =>
    rw [shape.segments_measured part rest filled measured, List.mem_cons] at member
    rcases member with same | later
    · cases same
      exact shape.spells_of_measured _ rest measured
    · exact ih later
  | kept c rest unmatched ih =>
    rw [shape.segments_kept c rest unmatched, List.mem_cons] at member
    rcases member with same | later
    · cases same
    · exact ih later

end Shape

end RouteMigration
