import RouteMigration.Proofs.Shape.Division

set_option autoImplicit false

namespace RouteMigration

namespace Shape

theorem pairInduction (first second : Shape) {motive : Text → Prop} (nil : motive [])
    (firstFound : ∀ part rest, first.Spells part → motive rest → motive (part ++ rest))
    (secondFound : ∀ part rest, second.Spells part → motive rest → motive (part ++ rest))
    (kept : ∀ c rest, (∀ width, first.width? (c :: rest) ≠ some (width + 1)) →
      (∀ width, second.width? (c :: rest) ≠ some (width + 1)) →
      motive rest → motive (c :: rest))
    (text : Text) : motive text := by
  induction bound : text.length using Nat.strongRecOn generalizing text with
  | _ size ih =>
    cases text with
    | nil => exact nil
    | cons c rest =>
      have shorter (width : Nat) : motive ((c :: rest).drop (width + 1)) := by
        refine ih _ ?_ _ rfl
        rw [← bound, List.length_drop, List.length_cons]
        omega
      by_cases opens : ∃ width, first.width? (c :: rest) = some (width + 1)
      · obtain ⟨width, measured⟩ := opens
        rw [← List.take_append_drop (width + 1) (c :: rest)]
        exact firstFound _ _ (first.spells_take _ _ measured) (shorter width)
      by_cases opensToo : ∃ width, second.width? (c :: rest) = some (width + 1)
      · obtain ⟨width, measured⟩ := opensToo
        rw [← List.take_append_drop (width + 1) (c :: rest)]
        exact secondFound _ _ (second.spells_take _ _ measured) (shorter width)
      · exact kept c rest (fun width measured => opens ⟨width, measured⟩)
          (fun width measured => opensToo ⟨width, measured⟩) (shorter 0)

theorem diverge_append (common first second : Shape) (mark other : Char)
    (opens : first.opener? = some mark) (opensOther : second.opener? = some other)
    (different : mark ≠ other) (text : Text) :
    Shape.width? (common ++ first) text = none ∨ Shape.width? (common ++ second) text = none := by
  rw [width?_append, width?_append]
  cases common.width? text with
  | none => exact .inl rfl
  | some width =>
    cases measured : first.width? (text.drop width) with
    | none => exact .inl (by simp [measured])
    | some rest =>
      cases measuredOther : second.width? (text.drop width) with
      | none => exact .inr (by simp [measuredOther])
      | some restOther =>
        obtain ⟨later, same⟩ := first.exists_opener mark opens _ rest measured
        obtain ⟨laterOther, sameOther⟩ :=
          second.exists_opener other opensOther _ restOther measuredOther
        exact absurd (List.cons.inj (same.symm.trans sameOther)).1 different

end Shape

theorem Segment.filter_isFound_kept (text : Text) :
    (text.map Segment.kept).filter Segment.isFound = [] := by
  simp [isFound]

/-- Texts of the shape and their replacement open alike, and are told apart by what follows. -/
structure Replaceable (mark : Char) (replacement : Text) (shape : Shape) : Prop where
  opens : shape.opensWith mark = true
  whole : shape.firm = true
  replacementOpens : replacement.OpensWith mark
  rejects : shape.rejects replacement = true

namespace Replaceable

variable {mark : Char} {replacement : Text} {shape : Shape}
  (replaceable : Replaceable mark replacement shape)

include replaceable

theorem segments_passed (part rest : Text) (opens : part.OpensWith mark)
    (unmatched : shape.width? (part ++ rest) = none) :
    shape.segments (part ++ rest) = part.map .kept ++ shape.segments rest := by
  obtain ⟨tail, rfl, foreign⟩ := opens
  have level := shape.segments_level mark
    (shape.opener?_of_opensWith mark replaceable.opens) tail rest foreign
  have never : ∀ width, shape.width? (mark :: (tail ++ rest)) ≠ some (width + 1) := by
    intro width
    rw [← List.cons_append, unmatched]
    exact (Option.some_ne_none _).symm
  rw [List.cons_append, shape.segments_kept mark _ never, level]
  rfl

theorem segments_replacement (rest : Text) :
    shape.segments (replacement ++ rest) = replacement.map .kept ++ shape.segments rest :=
  replaceable.segments_passed replacement rest replaceable.replacementOpens
    (shape.width?_of_rejects replacement rest replaceable.rejects)

theorem replaceAll_replacement (rest : Text) :
    shape.replaceAll replacement (replacement ++ rest) =
      replacement ++ shape.replaceAll replacement rest := by
  rw [Shape.replaceAll, replaceable.segments_replacement, List.flatMap_append,
    Segment.rewritten_kept]
  rfl

theorem segments_own (part rest : Text) (spelled : shape.Spells part) :
    shape.segments (part ++ rest) = .found part :: shape.segments rest := by
  have measured := shape.width?_of_spells replaceable.whole part rest spelled
  obtain ⟨tail, rfl, -⟩ := shape.opensWith_of_spells mark replaceable.opens part spelled
  exact shape.segments_measured _ rest (List.cons_ne_nil mark tail) measured

theorem replaceAll_own (part rest : Text) (spelled : shape.Spells part) :
    shape.replaceAll replacement (part ++ rest) =
      replacement ++ shape.replaceAll replacement rest := by
  rw [Shape.replaceAll, replaceable.segments_own part rest spelled]
  rfl

end Replaceable

structure Rivals (mark : Char) (replacement : Text) (first second : Shape) : Prop where
  ofFirst : Replaceable mark replacement first
  ofSecond : Replaceable mark replacement second
  diverge : ∀ text, first.width? text = none ∨ second.width? text = none

namespace Rivals

variable {mark : Char} {replacement : Text} {first second : Shape}
  (rivals : Rivals mark replacement first second)

include rivals

theorem symm : Rivals mark replacement second first where
  ofFirst := rivals.ofSecond
  ofSecond := rivals.ofFirst
  diverge := fun text => (rivals.diverge text).symm

theorem unmatched (part rest : Text) (spelled : first.Spells part) :
    second.width? (part ++ rest) = none := by
  refine (rivals.diverge (part ++ rest)).resolve_left ?_
  rw [first.width?_of_spells rivals.ofFirst.whole part rest spelled]
  exact Option.some_ne_none _

theorem segments_passed (part rest : Text) (spelled : first.Spells part) :
    second.segments (part ++ rest) = part.map .kept ++ second.segments rest :=
  rivals.ofSecond.segments_passed part rest
    (first.opensWith_of_spells mark rivals.ofFirst.opens part spelled)
    (rivals.unmatched part rest spelled)

theorem replaceAll_passed (part rest : Text) (spelled : first.Spells part) :
    second.replaceAll replacement (part ++ rest) = part ++ second.replaceAll replacement rest := by
  rw [Shape.replaceAll, rivals.segments_passed part rest spelled, List.flatMap_append,
    Segment.rewritten_kept]
  rfl

theorem replaceAll_around (before part after : Text) (spelled : first.Spells part) :
    second.replaceAll replacement (before ++ (part ++ after)) =
      second.replaceAll replacement before ++ (part ++ second.replaceAll replacement after) := by
  have passed := rivals.replaceAll_passed part after spelled
  obtain ⟨tail, rfl, -⟩ := first.opensWith_of_spells mark rivals.ofFirst.opens part spelled
  rw [← passed, Shape.replaceAll, List.cons_append,
    Shape.segments_append_opener rivals.ofSecond.opens rivals.ofSecond.whole, List.flatMap_append]
  rfl

theorem exists_source (content before part after : Text) (spelled : first.Spells part)
    (cut : second.replaceAll replacement content = before ++ (part ++ after)) :
    ∃ earlier later, content = earlier ++ (part ++ later) ∧
      second.replaceAll replacement earlier = before ∧
      second.replaceAll replacement later = after := by
  obtain ⟨leading, last, segments, leadingText, lastText⟩ := Shape.exists_kept_part
    rivals.ofFirst.opens rivals.ofFirst.whole replacement rivals.ofFirst.replacementOpens
    rivals.ofFirst.rejects (second.segments content) before part after spelled cut
  obtain ⟨tail, rfl, -⟩ := first.opensWith_of_spells mark rivals.ofFirst.opens part spelled
  -- All of it was kept, so the scan of the old text may be cut on both sides of it.
  have spelledOn : ((mark :: tail).map Segment.kept ++ last).flatMap Segment.source =
      mark :: (tail ++ last.flatMap Segment.source) := by
    rw [List.flatMap_append, Segment.source_kept, List.cons_append]
  have source : content =
      leading.flatMap Segment.source ++ mark :: (tail ++ last.flatMap Segment.source) := by
    rw [← second.source_segments content, segments, List.flatMap_append, spelledOn]
  have ahead : second.segments (leading.flatMap Segment.source) = leading := by
    have onward := second.segments_suffix content leading _ segments
    rw [spelledOn] at onward
    have cutThere := Shape.segments_append_opener rivals.ofSecond.opens rivals.ofSecond.whole
      (leading.flatMap Segment.source) (tail ++ last.flatMap Segment.source)
    rw [← source, segments, onward] at cutThere
    exact (List.append_cancel_right cutThere).symm
  have behind := second.segments_suffix content (leading ++ (mark :: tail).map .kept) last
    (by rw [segments, List.append_assoc])
  refine ⟨leading.flatMap Segment.source, last.flatMap Segment.source, source, ?_, ?_⟩
  · rw [Shape.replaceAll, ahead, leadingText]
  · rw [Shape.replaceAll, behind, lastText]

theorem placed_iff (content before part after : Text) (spelled : first.Spells part) :
    second.replaceAll replacement content = before ++ (part ++ after) ↔
      ∃ earlier later, content = earlier ++ (part ++ later) ∧
        second.replaceAll replacement earlier = before ∧
        second.replaceAll replacement later = after := by
  refine ⟨rivals.exists_source content before part after spelled, ?_⟩
  rintro ⟨earlier, later, rfl, rfl, rfl⟩
  exact rivals.replaceAll_around earlier part later spelled

theorem kept_of_kept (c : Char) (rest : Text)
    (unmatched : ∀ width, first.width? (c :: rest) ≠ some (width + 1))
    (kept : ∀ width, second.width? (c :: rest) ≠ some (width + 1)) (width : Nat) :
    first.width? (c :: second.replaceAll replacement rest) ≠ some (width + 1) := by
  intro measured
  rw [← second.replaceAll_kept replacement c rest kept] at measured
  have spelled := first.spells_take _ _ measured
  have cut := (List.take_append_drop (width + 1) (second.replaceAll replacement (c :: rest))).symm
  obtain ⟨earlier, later, source, opening, -⟩ :=
    rivals.exists_source (c :: rest) [] _ _ spelled cut
  have filled : replacement ≠ [] := by
    obtain ⟨tail, rfl, -⟩ := rivals.ofFirst.replacementOpens
    exact List.cons_ne_nil mark tail
  rw [second.eq_nil_of_replaceAll replacement filled earlier opening, List.nil_append] at source
  obtain ⟨tail, part, -⟩ := first.opensWith_of_spells mark rivals.ofFirst.opens _ spelled
  have found := first.width?_of_spells rivals.ofFirst.whole _ later spelled
  rw [← source, part, List.length_cons] at found
  exact unmatched tail.length found

theorem comm_behind (part rest : Text) (spelled : first.Spells part)
    (behind : first.replaceAll replacement (second.replaceAll replacement rest) =
      second.replaceAll replacement (first.replaceAll replacement rest)) :
    first.replaceAll replacement (second.replaceAll replacement (part ++ rest)) =
      second.replaceAll replacement (first.replaceAll replacement (part ++ rest)) := by
  rw [rivals.replaceAll_passed part rest spelled, rivals.ofFirst.replaceAll_own part _ spelled,
    rivals.ofFirst.replaceAll_own part rest spelled, rivals.ofSecond.replaceAll_replacement, behind]

theorem replaceAll_comm (text : Text) :
    first.replaceAll replacement (second.replaceAll replacement text) =
      second.replaceAll replacement (first.replaceAll replacement text) := by
  induction text using first.pairInduction second with
  | nil => rfl
  | firstFound part rest spelled ih => exact rivals.comm_behind part rest spelled ih
  | secondFound part rest spelled ih =>
    exact (rivals.symm.comm_behind part rest spelled ih.symm).symm
  | kept c rest unmatched kept ih =>
    rw [second.replaceAll_kept replacement c rest kept,
      first.replaceAll_kept replacement c rest unmatched,
      first.replaceAll_kept replacement c _ (rivals.kept_of_kept c rest unmatched kept),
      second.replaceAll_kept replacement c _ (rivals.symm.kept_of_kept c rest kept unmatched), ih]

theorem found_segments (text : Text) :
    (first.segments (second.replaceAll replacement text)).filter Segment.isFound =
      (first.segments text).filter Segment.isFound := by
  induction text using first.pairInduction second with
  | nil => rfl
  | firstFound part rest spelled ih =>
    rw [rivals.replaceAll_passed part rest spelled, rivals.ofFirst.segments_own part _ spelled,
      rivals.ofFirst.segments_own part rest spelled, List.filter_cons_of_pos rfl,
      List.filter_cons_of_pos rfl, ih]
  | secondFound part rest spelled ih =>
    rw [rivals.ofSecond.replaceAll_own part rest spelled, rivals.ofFirst.segments_replacement,
      rivals.symm.segments_passed part rest spelled, List.filter_append, List.filter_append, ih,
      Segment.filter_isFound_kept, Segment.filter_isFound_kept]
  | kept c rest unmatched kept ih =>
    rw [second.replaceAll_kept replacement c rest kept, first.segments_kept c rest unmatched,
      first.segments_kept c _ (rivals.kept_of_kept c rest unmatched kept)]
    exact ih

theorem ends_before (part after lead other rest : Text) (spelled : first.Spells part)
    (spelledOther : second.Spells other) (cut : part ++ after = lead ++ (other ++ rest)) :
    part <+: lead := by
  rcases List.append_eq_append_iff.mp cut with ⟨between, rfl, -⟩ | ⟨inside, same, behind⟩
  · exact List.prefix_append part between
  obtain ⟨tail, rfl, foreign⟩ := first.opensWith_of_spells mark rivals.ofFirst.opens part spelled
  have measured := second.width?_of_spells rivals.ofSecond.whole other rest spelledOther
  obtain ⟨otherTail, rfl, -⟩ :=
    second.opensWith_of_spells mark rivals.ofSecond.opens other spelledOther
  cases lead with
  | nil =>
    have none := rivals.unmatched _ after spelled
    rw [cut, List.nil_append, measured] at none
    cases none
  | cons c lead =>
    cases inside with
    | nil => simp [same]
    | cons d inside =>
      -- The other text would open inside this one.
      obtain ⟨rfl, -⟩ := List.cons.inj behind
      rw [(List.cons.inj same).2] at foreign
      simp at foreign

theorem disjoint (before part after between other rest : Text) (spelled : first.Spells part)
    (spelledOther : second.Spells other)
    (same : before ++ (part ++ after) = between ++ (other ++ rest)) :
    before ++ part <+: between ∨ between ++ other <+: before := by
  rcases List.append_eq_append_iff.mp same with ⟨lead, rfl, cut⟩ | ⟨lead, rfl, cut⟩
  · left
    rw [List.prefix_append_right_inj]
    exact rivals.ends_before part after lead other rest spelled spelledOther cut
  · right
    rw [List.prefix_append_right_inj]
    exact rivals.symm.ends_before other rest lead part after spelledOther spelled cut

end Rivals

end RouteMigration
