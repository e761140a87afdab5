import Mathlib.Data.List.Infix
import RouteMigration.Shape.Replacement

set_option autoImplicit false

namespace RouteMigration

namespace Shape

/-- Whether measuring fails on all texts that a block begins; when in doubt, it does not. -/
def rejects : Shape → Text → Bool
  | [], _ => false
  | .literal expected :: later, block =>
    if expected.isPrefixOf block then rejects later (block.drop expected.length)
    else !block.isPrefixOf expected
  | .quoteMark :: _, [] => false
  | .quoteMark :: later, c :: rest => !isQuoteMark c || rejects later rest
  | .blanks :: later, block =>
    !(block.dropWhile isBlank).isEmpty && rejects later (block.dropWhile isBlank)
  | .statementEnd :: later, block =>
    match block.dropWhile isBeforeStatementEnd with
    | [] => false
    | c :: rest => c != ';' || rejects later rest

end Shape

-- What may be ahead when a part of an occurrence, or nothing yet, has been read.

def Piece.remainders : Piece → List Piece
  | .literal expected => (expected.tails.filter fun rest => !rest.isEmpty).map .literal
  | piece => [piece]

def Shape.remainders : Shape → List Shape
  | [] => []
  | piece :: later => (piece.remainders.map fun rest => rest :: later) ++ Shape.remainders later

namespace Shape

-- An occurrence that touches the block starts in it, or comes to it with a part already read.
def avoids (shape : Shape) (block : Text) : Bool :=
  (shape.remainders.all fun remainder => remainder.rejects block) &&
    (block.tails.filter fun part => !part.isEmpty).all shape.rejects

section TakeWhile

variable (test : Char → Bool) (block rest : Text)

theorem takeWhile_append_of_ends (ends : block.dropWhile test ≠ []) :
    (block ++ rest).takeWhile test = block.takeWhile test := by
  rw [List.takeWhile_append, if_neg]
  intro whole
  apply ends
  have parts := congrArg List.length (List.takeWhile_append_dropWhile (p := test) (l := block))
  rw [List.length_append, whole] at parts
  exact List.eq_nil_of_length_eq_zero (by omega)

theorem drop_takeWhile_append (ends : block.dropWhile test ≠ []) :
    (block ++ rest).drop ((block ++ rest).takeWhile test).length =
      block.dropWhile test ++ rest := by
  have parts : block ++ rest = block.takeWhile test ++ (block.dropWhile test ++ rest) := by
    rw [← List.append_assoc, List.takeWhile_append_dropWhile]
  rw [takeWhile_append_of_ends test block rest ends, parts, List.drop_left]

end TakeWhile

theorem width?_of_rejects (shape : Shape) (block rest : Text)
    (rejected : shape.rejects block = true) :
    shape.width? (block ++ rest) = none := by
  induction shape generalizing block with
  | nil => simp [rejects] at rejected
  | cons piece later ih =>
    cases piece with
    | literal expected =>
      simp only [rejects] at rejected
      split at rejected
      next found =>
        have fits := (List.isPrefixOf_iff_prefix.mp found).length_le
        have foundAll : expected.isPrefixOf (block ++ rest) = true :=
          List.isPrefixOf_iff_prefix.mpr
            ((List.isPrefixOf_iff_prefix.mp found).trans (List.prefix_append block rest))
        simp only [width?, Piece.width?, foundAll, if_true, Option.bind_some,
          List.drop_append_of_le_length fits, ih _ rejected, Option.map_none]
      next missed =>
        have never : ¬ expected.isPrefixOf (block ++ rest) = true := by
          intro foundAll
          rcases List.prefix_or_prefix_of_prefix (List.isPrefixOf_iff_prefix.mp foundAll)
            (List.prefix_append block rest) with inside | beyond
          · exact missed (List.isPrefixOf_iff_prefix.mpr inside)
          · simp [List.isPrefixOf_iff_prefix.mpr beyond] at rejected
        simp [width?, Piece.width?, never]
    | quoteMark =>
      cases block with
      | nil => simp [rejects] at rejected
      | cons c block =>
        simp only [rejects, Bool.or_eq_true, Bool.not_eq_true'] at rejected
        cases quoted : isQuoteMark c with
        | false => simp [width?, Piece.width?, quoted]
        | true =>
          have rejectedLater : rejects later block = true := by simpa [quoted] using rejected
          simp [width?, Piece.width?, quoted, ih block rejectedLater]
    | blanks =>
      simp only [rejects, Bool.and_eq_true, Bool.not_eq_true', List.isEmpty_eq_false_iff]
        at rejected
      obtain ⟨ends, rejectedLater⟩ := rejected
      simp only [width?, Piece.width?, Option.bind_some,
        drop_takeWhile_append isBlank block rest ends, ih _ rejectedLater, Option.map_none]
    | statementEnd =>
      simp only [rejects] at rejected
      split at rejected
      next => cases rejected
      next c after ends =>
        have stops : block.dropWhile isBeforeStatementEnd ≠ [] := by simp [ends]
        simp only [width?, Piece.width?,
          drop_takeWhile_append isBeforeStatementEnd block rest stops, ends, List.cons_append,
          List.head?_cons, Option.some.injEq]
        by_cases closed : c = ';'
        · have rejectedLater : rejects later after = true := by simpa [closed] using rejected
          have behind : (block ++ rest).drop
              (((block ++ rest).takeWhile isBeforeStatementEnd).length + 1) = after ++ rest := by
            rw [← List.drop_drop, drop_takeWhile_append isBeforeStatementEnd block rest stops, ends]
            rfl
          simp [closed, behind, ih after rejectedLater]
        · simp [closed]

end Shape

theorem Piece.exists_remainder (piece : Piece) (before text : Text) (width : Nat)
    (measured : piece.width? (before ++ text) = some width) (reaches : before.length < width) :
    ∃ remainder ∈ piece.remainders, remainder.width? text = some (width - before.length) := by
  cases piece with
  | literal expected =>
    simp only [Piece.width?, Option.ite_none_right_eq_some, Option.some.injEq] at measured
    obtain ⟨found, rfl⟩ := measured
    obtain ⟨rest, rfl⟩ := List.prefix_of_prefix_length_le (List.prefix_append before text)
      (List.isPrefixOf_iff_prefix.mp found) (by omega)
    simp only [List.isPrefixOf_iff_prefix, List.prefix_append_right_inj] at found
    refine ⟨.literal rest, ?_, ?_⟩
    · have ahead : rest ≠ [] := by
        rintro rfl
        simp at reaches
      simp [Piece.remainders, ahead]
    · simp [Piece.width?, List.isPrefixOf_iff_prefix.mpr found]
  | quoteMark =>
    cases before with
    | nil => exact ⟨.quoteMark, by simp [Piece.remainders], by simpa using measured⟩
    | cons c before =>
      simp only [List.cons_append, Piece.width?, Option.ite_none_right_eq_some,
        Option.some.injEq] at measured
      simp only [← measured.2, List.length_cons] at reaches
      omega
  | blanks =>
    simp only [Piece.width?, Option.some.injEq] at measured
    refine ⟨.blanks, by simp [Piece.remainders], ?_⟩
    rw [List.takeWhile_append] at measured
    split at measured
    next => simp [Piece.width?, ← measured]
    next short =>
      have bound := (List.takeWhile_prefix isBlank (l := before)).length_le
      omega
  | statementEnd =>
    simp only [Piece.width?, Option.ite_none_right_eq_some, Option.some.injEq] at measured
    obtain ⟨closed, rfl⟩ := measured
    refine ⟨.statementEnd, by simp [Piece.remainders], ?_⟩
    rw [List.takeWhile_append] at closed reaches ⊢
    split at reaches
    next whole =>
      rw [if_pos whole, List.length_append, ← List.drop_drop, List.drop_left] at closed
      simp only [whole, if_true, List.length_append, Piece.width?, closed]
      congr 1
      omega
    next short =>
      have bound := (List.takeWhile_prefix isBeforeStatementEnd (l := before)).length_le
      omega

namespace Shape

theorem exists_remainder (shape : Shape) (before text : Text) (width : Nat)
    (measured : shape.width? (before ++ text) = some width) (reaches : before.length < width) :
    ∃ remainder ∈ shape.remainders, remainder.width? text = some (width - before.length) := by
  induction shape generalizing before width with
  | nil =>
    simp only [width?, Option.some.injEq] at measured
    omega
  | cons piece later ih =>
    simp only [width?, Option.bind_eq_some_iff, Option.map_eq_some_iff] at measured
    obtain ⟨head, headMeasured, tail, tailMeasured, rfl⟩ := measured
    by_cases inside : head ≤ before.length
    · rw [List.drop_append_of_le_length inside] at tailMeasured
      obtain ⟨remainder, member, found⟩ :=
        ih (before.drop head) tail tailMeasured (by simp only [List.length_drop]; omega)
      refine ⟨remainder, List.mem_append_right _ member, ?_⟩
      rw [found, List.length_drop]
      congr 1
      omega
    · obtain ⟨rest, member, found⟩ :=
        piece.exists_remainder before text head headMeasured (by omega)
      refine ⟨rest :: later, List.mem_append_left _ (List.mem_map_of_mem member), ?_⟩
      have behind : (before ++ text).drop head = text.drop (head - before.length) := by
        rw [List.drop_append, List.drop_eq_nil_of_le (by omega), List.nil_append]
      rw [behind] at tailMeasured
      simp only [width?, found, Option.bind_some, tailMeasured, Option.map_some]
      congr 1
      omega

section Avoided

variable (shape : Shape) (block : Text) (avoided : shape.avoids block = true)

include avoided

theorem width?_le_of_avoids (before rest : Text) (width : Nat)
    (measured : shape.width? (before ++ (block ++ rest)) = some width) : width ≤ before.length := by
  by_contra reaches
  obtain ⟨remainder, member, found⟩ :=
    shape.exists_remainder before (block ++ rest) width measured (by omega)
  simp only [avoids, Bool.and_eq_true, List.all_eq_true] at avoided
  rw [remainder.width?_of_rejects block rest (avoided.1 remainder member)] at found
  cases found

theorem width?_of_avoids (part : Text) (inside : part <:+ block) (nonempty : part ≠ [])
    (rest : Text) : shape.width? (part ++ rest) = none := by
  simp only [avoids, Bool.and_eq_true, List.all_eq_true, List.mem_filter, List.mem_tails,
    Bool.not_eq_true', List.isEmpty_eq_false_iff] at avoided
  exact shape.width?_of_rejects part rest (avoided.2 part ⟨inside, nonempty⟩)

theorem segments_of_avoids (rest : Text) :
    shape.segments (block ++ rest) = block.map Segment.kept ++ shape.segments rest := by
  have keeps (part : Text) (inside : part <:+ block) :
      shape.segments (part ++ rest) = part.map Segment.kept ++ shape.segments rest := by
    induction part with
    | nil => rfl
    | cons c part ih =>
      have unmatched : ∀ width, shape.width? (c :: (part ++ rest)) ≠ some (width + 1) := by
        intro width
        rw [← List.cons_append,
          shape.width?_of_avoids block avoided (c :: part) inside (by simp) rest]
        simp
      rw [List.cons_append, shape.segments_kept c (part ++ rest) unmatched,
        ih ((List.suffix_cons c part).trans inside)]
      rfl
  exact keeps block (List.suffix_refl block)

theorem exists_segments_of_avoids (before rest : Text) :
    ∃ first, shape.segments (before ++ (block ++ rest)) =
      first ++ (block.map Segment.kept ++ shape.segments rest) := by
  induction bound : before.length using Nat.strongRecOn generalizing before with
  | _ size ih =>
    cases before with
    | nil => exact ⟨[], shape.segments_of_avoids block avoided rest⟩
    | cons c before =>
      rw [List.cons_append]
      rcases shape.segments_cons c (before ++ (block ++ rest)) with
        ⟨width, measured, step⟩ | ⟨-, step⟩
      · rw [← List.cons_append] at measured step
        have fits := shape.width?_le_of_avoids block avoided (c :: before) rest _ measured
        have shorter : ((c :: before).drop (width + 1)).length < size := by
          rw [← bound, List.length_drop, List.length_cons]
          omega
        obtain ⟨first, segments⟩ := ih _ shorter _ rfl
        rw [List.drop_append_of_le_length fits, segments] at step
        exact ⟨_ :: first, step⟩
      · obtain ⟨first, segments⟩ := ih before.length (by simp [← bound]) before rfl
        rw [segments] at step
        exact ⟨_ :: first, step⟩

theorem infix_replaceAll_of_avoids (replacement text : Text) (present : block <:+: text) :
    block <:+: shape.replaceAll replacement text := by
  obtain ⟨before, rest, rfl⟩ := present
  obtain ⟨first, segments⟩ := shape.exists_segments_of_avoids block avoided before rest
  rw [replaceAll, List.append_assoc, segments, List.flatMap_append, List.flatMap_append,
    Segment.rewritten_kept, ← List.append_assoc]
  exact ⟨_, _, rfl⟩

end Avoided

end Shape

structure Apart (word text : Text) : Prop where
  unstarted : ∀ before inside after rest, text = before ++ inside → inside ≠ [] →
    word ++ after ≠ inside ++ rest
  unreached : ∀ read ahead after rest, word = read ++ ahead → ahead ≠ [] → text ++ rest ≠ ahead ++ after

namespace Shape

theorem apart_of_avoids (shape : Shape) (word block : Text)
    (measured : ∀ rest, shape.width? (word ++ rest) = some word.length)
    (avoided : shape.avoids block = true) : Apart word block where
  unstarted := by
    intro before inside after rest cut filled same
    have begins := shape.width?_of_avoids block avoided inside ⟨before, cut.symm⟩ filled rest
    rw [← same, measured] at begins
    cases begins
  unreached := by
    intro read ahead after rest cut filled same
    have found : shape.width? (read ++ (block ++ rest)) = some word.length := by
      rw [same, ← List.append_assoc, ← cut, measured]
    have fits := shape.width?_le_of_avoids block avoided read rest word.length found
    rw [cut, List.length_append] at fits
    exact filled (List.eq_nil_of_length_eq_zero (by omega))

theorem apart_of_avoided (shape : Shape) (block occurrence : Text)
    (measured : ∀ rest, shape.width? (occurrence ++ rest) = some occurrence.length)
    (avoided : shape.avoids block = true) : Apart block occurrence where
  unstarted := by
    intro before inside after rest cut filled same
    have found : shape.width? (before ++ (block ++ after)) = some occurrence.length := by
      rw [same, ← List.append_assoc, ← cut, measured]
    have fits := shape.width?_le_of_avoids block avoided before after occurrence.length found
    rw [cut, List.length_append] at fits
    exact filled (List.eq_nil_of_length_eq_zero (by omega))
  unreached := by
    intro read ahead after rest cut filled same
    have begins := shape.width?_of_avoids block avoided ahead ⟨read, cut.symm⟩ filled after
    rw [← same, measured] at begins
    cases begins

end Shape

end RouteMigration
