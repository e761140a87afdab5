import RouteMigration.Proofs.Shape.Locality

set_option autoImplicit false

namespace RouteMigration

namespace Text

-- What takes the place of a statement may be longer than the statement, but it ends none.
def weigh (c : Char) : Nat :=
  if c = ';' then 16 else 1

def weight : Text → Nat
  | [] => 0
  | c :: rest => weigh c + weight rest

@[simp] theorem weight_append (first second : Text) :
    weight (first ++ second) = weight first + weight second := by
  induction first with
  | nil => simp [weight]
  | cons c rest ih => simp [weight, ih, Nat.add_assoc]

end Text

namespace Piece

def leastWeight : Piece → Nat
  | .literal text => text.weight
  | .quoteMark => 1
  | .blanks => 0
  | .statementEnd => Text.weigh ';'

theorem leastWeight_le (piece : Piece) (text : Text) (spelled : piece.Spells text) :
    piece.leastWeight ≤ text.weight := by
  cases piece with
  | literal expected =>
    obtain rfl : text = expected := spelled
    exact Nat.le_refl _
  | quoteMark => rcases spelled with rfl | rfl <;> decide
  | blanks => exact Nat.zero_le _
  | statementEnd =>
    obtain ⟨lead, rfl, -⟩ := spelled
    rw [Text.weight_append]
    exact Nat.le_add_left _ _

end Piece

namespace Shape

def leastWeight : Shape → Nat
  | [] => 0
  | piece :: later => piece.leastWeight + leastWeight later

theorem leastWeight_le (shape : Shape) (text : Text) (spelled : shape.Spells text) :
    shape.leastWeight ≤ text.weight := by
  induction shape generalizing text with
  | nil => exact Nat.zero_le _
  | cons piece later ih =>
    obtain ⟨head, rest, rfl, headSpelled, restSpelled⟩ := spelled
    have first := piece.leastWeight_le head headSpelled
    have others := ih rest restSpelled
    simp only [leastWeight, Text.weight_append]
    omega

section Lighter

variable (shape : Shape) (replacement : Text) (lighter : replacement.weight < shape.leastWeight)

include lighter

theorem weight_rewritten_le (segments : List Segment)
    (spelled : ∀ part, .found part ∈ segments → shape.Spells part) :
    Text.weight (segments.flatMap (Segment.rewritten replacement)) ≤
      Text.weight (segments.flatMap Segment.source) := by
  induction segments with
  | nil => exact Nat.le_refl _
  | cons segment later ih =>
    have rest := ih fun part member => spelled part (List.mem_cons_of_mem _ member)
    rw [List.flatMap_cons, List.flatMap_cons, Text.weight_append, Text.weight_append]
    cases segment with
    | kept c => exact Nat.add_le_add_left rest _
    | found part =>
      have least := shape.leastWeight_le part (spelled part (by simp))
      simp only [Segment.rewritten, Segment.source]
      omega

theorem weight_replaceAll_lt (text part : Text) (member : .found part ∈ shape.segments text) :
    (shape.replaceAll replacement text).weight < text.weight := by
  have spelled := shape.spells_of_found text
  have source := shape.source_segments text
  obtain ⟨earlier, later, segments⟩ := List.append_of_mem member
  rw [segments] at spelled source
  have before := shape.weight_rewritten_le replacement lighter earlier
    fun other within => spelled other (List.mem_append_left _ within)
  have after := shape.weight_rewritten_le replacement lighter later
    fun other within => spelled other (by simp [within])
  have least := shape.leastWeight_le part (spelled part (by simp))
  rw [replaceAll, segments, ← source]
  simp only [List.flatMap_append, List.flatMap_cons, Text.weight_append, Segment.rewritten,
    Segment.source]
  omega

end Lighter

end Shape

end RouteMigration
