import RouteMigration.Proofs.Shape.Avoidance
import RouteMigration.Proofs.Shape.Locality

set_option autoImplicit false

namespace RouteMigration

namespace Text

def OpensWith (mark : Char) (text : Text) : Prop :=
  ∃ tail, text = mark :: tail ∧ mark ∉ tail

def occurrences (word text : Text) : Nat :=
  text.tails.countP word.isPrefixOf

theorem occurrences_cons (word : Text) (c : Char) (rest : Text) :
    occurrences word (c :: rest) =
      occurrences word rest + if word.isPrefixOf (c :: rest) then 1 else 0 := by
  simp [occurrences, List.countP_cons]

theorem occurrences_append (mark : Char) (tail part rest : Text) (foreign : mark ∉ part) :
    occurrences (mark :: tail) (part ++ rest) = occurrences (mark :: tail) rest := by
  induction part with
  | nil => rfl
  | cons c part ih =>
    simp only [List.mem_cons, not_or] at foreign
    have missed : (mark :: tail).isPrefixOf (c :: (part ++ rest)) = false := by
      simp [List.isPrefixOf, foreign.1]
    rw [List.cons_append, occurrences_cons, missed, ih foreign.2]
    rfl

end Text

theorem Piece.not_mem_of_spells (piece : Piece) (c : Char) (excluded : piece.excludes c = true)
    (text : Text) (spelled : piece.Spells text) : c ∉ text := by
  cases piece with
  | literal expected =>
    obtain rfl : text = expected := spelled
    simpa [excludes] using excluded
  | quoteMark =>
    rintro member
    rcases spelled with rfl | rfl
    · obtain rfl := List.mem_singleton.mp member
      cases excluded
    · obtain rfl := List.mem_singleton.mp member
      cases excluded
  | blanks =>
    intro member
    simp [excludes, spelled c member] at excluded
  | statementEnd =>
    obtain rfl : c = '\n' := by simpa [excludes] using excluded
    obtain ⟨lead, rfl, level⟩ := spelled
    simpa using level

namespace Shape

theorem not_mem_of_spells (shape : Shape) (c : Char) (excluded : shape.excludes c = true)
    (text : Text) (spelled : shape.Spells text) : c ∉ text := by
  induction shape generalizing text with
  | nil =>
    obtain rfl : text = [] := spelled
    simp
  | cons piece later ih =>
    obtain ⟨head, rest, rfl, headSpelled, restSpelled⟩ := spelled
    simp only [excludes, List.all_cons, Bool.and_eq_true] at excluded
    rw [List.mem_append, not_or]
    exact ⟨piece.not_mem_of_spells c excluded.1 head headSpelled, ih excluded.2 rest restSpelled⟩

theorem count_replaceAll (shape : Shape) (c : Char) (excluded : shape.excludes c = true)
    (replacement : Text) (foreign : c ∉ replacement) (text : Text) :
    (shape.replaceAll replacement text).count c = text.count c := by
  induction text using shape.scanInduction with
  | nil => rfl
  | found part rest filled measured ih =>
    have absent := shape.not_mem_of_spells c excluded part
      (shape.spells_of_measured part rest measured)
    rw [shape.replaceAll_found replacement part rest filled measured, List.count_append,
      List.count_append, List.count_eq_zero_of_not_mem foreign,
      List.count_eq_zero_of_not_mem absent, ih]
  | kept d rest unmatched ih =>
    rw [shape.replaceAll_kept replacement d rest unmatched, List.count_cons, List.count_cons, ih]

theorem infix_of_infix_append (shape : Shape) (whole : shape.firm = true) (block : Text)
    (avoided : shape.avoids block = true) (opening more text : Text)
    (spelled : shape.Spells opening) (inside : opening ++ more <:+: block ++ text) :
    opening ++ more <:+: text := by
  obtain ⟨before, after, same⟩ := inside
  rw [List.append_assoc] at same
  rcases List.append_eq_append_iff.mp same with ⟨rest, cut, behind⟩ | ⟨rest, rfl, behind⟩
  · cases rest with
    | nil => exact ⟨[], after, by simpa using behind⟩
    | cons c rest =>
      have none := shape.width?_of_avoids block avoided (c :: rest) ⟨before, cut.symm⟩ (by simp) text
      rw [← behind, List.append_assoc, shape.width?_of_spells whole opening _ spelled] at none
      cases none
  · exact ⟨rest, after, by rw [behind, List.append_assoc]⟩

def opensWith (mark : Char) : Shape → Bool
  | .literal (c :: expected) :: later =>
    c == mark && Shape.excludes mark (.literal expected :: later)
  | _ => false

theorem opensWith_of_spells (shape : Shape) (mark : Char) (opens : shape.opensWith mark = true)
    (text : Text) (spelled : shape.Spells text) : text.OpensWith mark := by
  match shape with
  | .literal (c :: expected) :: later =>
    simp only [opensWith, Bool.and_eq_true, beq_iff_eq] at opens
    obtain ⟨rfl, excluded⟩ := opens
    obtain ⟨_, rest, rfl, rfl, restSpelled⟩ := spelled
    exact ⟨expected ++ rest, rfl, not_mem_of_spells _ c excluded _ ⟨_, _, rfl, rfl, restSpelled⟩⟩

theorem opener?_of_opensWith (shape : Shape) (mark : Char) (opens : shape.opensWith mark = true) :
    shape.opener? = some mark := by
  match shape with
  | .literal (c :: expected) :: later =>
    simp only [opensWith, Bool.and_eq_true, beq_iff_eq] at opens
    rw [opener?, opens.1]

end Shape

structure Marks (mark : Char) (read : Segment → Text) (segments : List Segment) : Prop where
  kept : ∀ c, read (.kept c) = [c]
  found : ∀ part, .found part ∈ segments → (read (.found part)).OpensWith mark

namespace Marks

variable {mark : Char} {read : Segment → Text} {segments : List Segment}

theorem tail {segment : Segment} (marks : Marks mark read (segment :: segments)) :
    Marks mark read segments where
  kept := marks.kept
  found := fun part member => marks.found part (List.mem_cons_of_mem _ member)

theorem rewritten {replacement : Text} (opens : replacement.OpensWith mark)
    (segments : List Segment) : Marks mark (Segment.rewritten replacement) segments where
  kept := fun _ => rfl
  found := fun _ _ => opens

theorem eq_kept (marks : Marks mark read segments) (part rest : Text) (foreign : mark ∉ part)
    (spelled : segments.flatMap read = part ++ rest) :
    ∃ later, segments = part.map .kept ++ later ∧ later.flatMap read = rest := by
  induction part generalizing segments with
  | nil => exact ⟨segments, rfl, spelled⟩
  | cons c part ih =>
    simp only [List.mem_cons, not_or] at foreign
    cases segments with
    | nil => cases spelled
    | cons segment segments =>
      rw [List.flatMap_cons] at spelled
      cases segment with
      | kept first =>
        rw [marks.kept] at spelled
        obtain ⟨rfl, behind⟩ := List.cons.inj spelled
        obtain ⟨later, rfl, rest⟩ := ih marks.tail foreign.2 behind
        exact ⟨later, rfl, rest⟩
      | found occurrence =>
        obtain ⟨tail, text, -⟩ := marks.found occurrence (by simp)
        rw [text] at spelled
        exact absurd (List.cons.inj spelled).1 foreign.1

theorem exists_cut (marks : Marks mark read segments) (before rest : Text)
    (spelled : segments.flatMap read = before ++ mark :: rest) :
    ∃ earlier segment later tail, segments = earlier ++ segment :: later ∧
      earlier.flatMap read = before ∧ read segment = mark :: tail := by
  induction segments generalizing before with
  | nil => simp at spelled
  | cons segment segments ih =>
    rw [List.flatMap_cons] at spelled
    obtain ⟨c, tail, text, level⟩ : ∃ c tail, read segment = c :: tail ∧ mark ∉ tail := by
      cases segment with
      | kept c => exact ⟨c, [], marks.kept c, by simp⟩
      | found occurrence =>
        obtain ⟨tail, text, level⟩ := marks.found occurrence (by simp)
        exact ⟨mark, tail, text, level⟩
    rw [text] at spelled
    cases before with
    | nil =>
      obtain ⟨rfl, -⟩ := List.cons.inj spelled
      exact ⟨[], segment, segments, tail, rfl, rfl, text⟩
    | cons first before =>
      obtain ⟨rfl, behind⟩ := List.cons.inj spelled
      rcases List.append_eq_append_iff.mp behind with ⟨between, rfl, rest⟩ | ⟨inside, rfl, rest⟩
      · obtain ⟨earlier, next, later, tail', rfl, earlierText, nextText⟩ :=
          ih marks.tail between rest
        refine ⟨segment :: earlier, next, later, tail', rfl, ?_, nextText⟩
        rw [List.flatMap_cons, text, earlierText]
        rfl
      · cases inside with
        | nil =>
          obtain ⟨earlier, next, later, tail', rfl, earlierText, nextText⟩ :=
            ih marks.tail [] (by simpa using rest.symm)
          refine ⟨segment :: earlier, next, later, tail', rfl, ?_, nextText⟩
          rw [List.flatMap_cons, text, earlierText]
          simp
        | cons other inside =>
          obtain ⟨rfl, -⟩ := List.cons.inj rest
          exact absurd (by simp) level

end Marks

namespace Segment

def isFound : Segment → Bool
  | .kept _ => false
  | .found _ => true

end Segment

namespace Shape

/-- A cut of a text in which all that has the shape, wherever it stands, is a segment of its own. -/
structure Divides (shape : Shape) (text : Text) (segments : List Segment) : Prop where
  source : segments.flatMap Segment.source = text
  spelled : ∀ part, .found part ∈ segments → shape.Spells part
  complete : ∀ before part after, shape.Spells part → text = before ++ (part ++ after) →
    ∃ earlier later, segments = earlier ++ .found part :: later ∧
      earlier.flatMap Segment.source = before

section Divisions

variable {shape : Shape} {mark : Char} (opens : shape.opensWith mark = true)

include opens

theorem Divides.marks {text : Text} {segments : List Segment} (divides : shape.Divides text segments) :
    Marks mark Segment.source segments where
  kept := fun _ => rfl
  found := fun part member => shape.opensWith_of_spells mark opens part (divides.spelled part member)

theorem Divides.filled {text : Text} {segments : List Segment} (divides : shape.Divides text segments)
    (segment : Segment) (member : segment ∈ segments) : segment.source ≠ [] := by
  cases segment with
  | kept c => simp [Segment.source]
  | found part =>
    obtain ⟨tail, same, -⟩ := (divides.marks opens).found part member
    simp [same]

theorem Divides.tail {text : Text} {segment : Segment} {segments : List Segment}
    (divides : shape.Divides text (segment :: segments)) :
    shape.Divides (segments.flatMap Segment.source) segments where
  source := rfl
  spelled := fun part member => divides.spelled part (List.mem_cons_of_mem _ member)
  complete := by
    intro before part after spelled cut
    have whole : text = segment.source ++ before ++ (part ++ after) := by
      rw [← divides.source, List.flatMap_cons, cut, List.append_assoc]
    obtain ⟨earlier, later, same, earlierText⟩ :=
      divides.complete (segment.source ++ before) part after spelled whole
    cases earlier with
    | nil =>
      have void := (List.append_eq_nil_iff.mp earlierText.symm).1
      exact absurd void (divides.filled opens segment (by simp))
    | cons first earlier =>
      obtain ⟨rfl, rfl⟩ := List.cons.inj same
      exact ⟨earlier, later, rfl, by simpa using earlierText⟩

theorem Divides.opening {text : Text} {segments : List Segment} (divides : shape.Divides text segments)
    (part after : Text) (spelled : shape.Spells part) (same : text = part ++ after) :
    ∃ later, segments = .found part :: later := by
  obtain ⟨earlier, later, rfl, void⟩ := divides.complete [] part after spelled same
  cases earlier with
  | nil => exact ⟨later, rfl⟩
  | cons segment earlier =>
    exact absurd (List.append_eq_nil_iff.mp void).1 (divides.filled opens segment (by simp))

theorem Divides.head {text : Text} {segment : Segment} {first second : List Segment}
    (divides : shape.Divides text (segment :: first)) (other : shape.Divides text second) :
    ∃ later, second = segment :: later := by
  have source := divides.source
  rw [List.flatMap_cons] at source
  cases segment with
  | found part =>
    exact other.opening opens part _ (divides.spelled part (by simp)) source.symm
  | kept c =>
    have begins := other.source.trans source.symm
    cases second with
    | nil => cases begins
    | cons segment second =>
      cases segment with
      | kept d =>
        obtain ⟨rfl, -⟩ := List.cons.inj begins
        exact ⟨second, rfl⟩
      | found part =>
        obtain ⟨later, same⟩ := divides.opening opens part (second.flatMap Segment.source)
          (other.spelled part (by simp)) other.source.symm
        cases same

theorem Divides.unique {text : Text} {first second : List Segment}
    (divides : shape.Divides text first) (other : shape.Divides text second) : first = second := by
  induction first generalizing text second with
  | nil =>
    cases second with
    | nil => rfl
    | cons segment second =>
      obtain ⟨_, none⟩ := other.head opens divides
      cases none
  | cons segment first ih =>
    obtain ⟨later, rfl⟩ := divides.head opens other
    have rest : first.flatMap Segment.source = later.flatMap Segment.source :=
      List.append_cancel_left (divides.source.trans other.source.symm)
    have tails := other.tail opens
    rw [← rest] at tails
    rw [ih (divides.tail opens) tails]

variable (whole : shape.firm = true)

include whole

theorem divides_segments (text : Text) : shape.Divides text (shape.segments text) where
  source := shape.source_segments text
  spelled := shape.spells_of_found text
  complete := by
    intro before part after spelled cut
    have marks : Marks mark Segment.source (shape.segments text) :=
      ⟨fun _ => rfl, fun part member =>
        shape.opensWith_of_spells mark opens part (shape.spells_of_found text part member)⟩
    obtain ⟨tail, rfl, -⟩ := shape.opensWith_of_spells mark opens part spelled
    obtain ⟨earlier, segment, later, rest, segments, earlierText, segmentText⟩ :=
      marks.exists_cut before (tail ++ after) (by rw [shape.source_segments, cut, List.cons_append])
    have behind : segment.source ++ later.flatMap Segment.source = mark :: tail ++ after := by
      have source := shape.source_segments text
      rw [segments, List.flatMap_append, List.flatMap_cons, earlierText, cut] at source
      exact List.append_cancel_left source
    have measured := shape.width?_of_spells whole (mark :: tail) after spelled
    refine ⟨earlier, later, ?_, earlierText⟩
    cases segment with
    | kept c =>
      obtain ⟨rfl, -⟩ := List.cons.inj segmentText
      have unmatched := shape.unmatched_of_kept text earlier later c segments tail.length
      have source : c :: later.flatMap Segment.source = c :: tail ++ after := behind
      rw [source, measured] at unmatched
      exact absurd rfl unmatched
    | found occurrence =>
      have found := shape.width?_of_spells whole occurrence (later.flatMap Segment.source)
        (shape.spells_of_found text occurrence (by simp [segments]))
      have source : occurrence ++ later.flatMap Segment.source = mark :: tail ++ after := behind
      rw [source, measured, Option.some.injEq] at found
      obtain ⟨rfl, -⟩ := List.append_inj source found.symm
      exact segments

theorem exists_kept_part (replacement : Text) (opensToo : replacement.OpensWith mark)
    (rejected : shape.rejects replacement = true) (segments : List Segment)
    (before part after : Text) (spelled : shape.Spells part)
    (cut : segments.flatMap (Segment.rewritten replacement) = before ++ (part ++ after)) :
    ∃ earlier last, segments = earlier ++ (part.map .kept ++ last) ∧
      earlier.flatMap (Segment.rewritten replacement) = before ∧
      last.flatMap (Segment.rewritten replacement) = after := by
  have measured := shape.width?_of_spells whole part after spelled
  obtain ⟨tail, rfl, foreign⟩ := shape.opensWith_of_spells mark opens part spelled
  obtain ⟨earlier, segment, later, rest, rfl, earlierText, segmentText⟩ :=
    (Marks.rewritten opensToo segments).exists_cut before (tail ++ after) cut
  have behind : segment.rewritten replacement ++ later.flatMap (Segment.rewritten replacement) =
      mark :: tail ++ after := by
    rw [List.flatMap_append, List.flatMap_cons, earlierText] at cut
    exact List.append_cancel_left cut
  cases segment with
  | found occurrence =>
    have source : replacement ++ later.flatMap (Segment.rewritten replacement) =
        mark :: tail ++ after := behind
    rw [← source, shape.width?_of_rejects replacement _ rejected] at measured
    cases measured
  | kept c =>
    obtain ⟨rfl, onward⟩ := List.cons.inj behind
    obtain ⟨last, rfl, lastText⟩ :=
      (Marks.rewritten opensToo later).eq_kept tail after foreign onward
    exact ⟨earlier, last, rfl, earlierText, lastText⟩

theorem not_infix_replaceAll (replacement : Text) (opensToo : replacement.OpensWith mark)
    (rejected : shape.rejects replacement = true) (text part : Text) (spelled : shape.Spells part) :
    ¬ part <:+: shape.replaceAll replacement text := by
  rintro ⟨before, after, cut⟩
  rw [List.append_assoc] at cut
  obtain ⟨earlier, last, segments, -, -⟩ :=
    exists_kept_part opens whole replacement opensToo rejected _ before part after spelled cut.symm
  obtain ⟨tail, rfl, -⟩ := shape.opensWith_of_spells mark opens part spelled
  -- It lies between what was replaced, so the scan has met it.
  rw [List.map_cons, List.cons_append] at segments
  have unmatched :=
    shape.unmatched_of_kept text earlier (tail.map .kept ++ last) mark segments tail.length
  have source : mark :: (tail.map Segment.kept ++ last).flatMap Segment.source =
      mark :: tail ++ last.flatMap Segment.source := by
    simp [List.flatMap_append]
  rw [source, shape.width?_of_spells whole (mark :: tail) _ spelled] at unmatched
  exact absurd rfl unmatched

theorem width?_append_opener (c : Char) (part rest : Text) (width : Nat) :
    shape.width? (c :: (part ++ mark :: rest)) = some (width + 1) ↔
      shape.width? (c :: part) = some (width + 1) := by
  rw [← List.cons_append]
  constructor
  · intro measured
    have spelled := shape.spells_take _ _ measured
    obtain ⟨tail, same, foreign⟩ := shape.opensWith_of_spells mark opens _ spelled
    have fits : width + 1 ≤ (c :: part).length := by
      by_contra beyond
      rw [List.take_append] at same
      obtain ⟨more, ahead⟩ : ∃ more, width + 1 - (c :: part).length = more + 1 :=
        ⟨width - (c :: part).length, by omega⟩
      rw [ahead, List.take_of_length_le (by omega), List.take_succ_cons, List.cons_append] at same
      rw [← (List.cons.inj same).2] at foreign
      simp at foreign
    rw [List.take_append_of_le_length fits] at spelled
    have alone := shape.width?_of_spells whole _ ((c :: part).drop (width + 1)) spelled
    rwa [List.take_append_drop, List.length_take, Nat.min_eq_left fits] at alone
  · intro measured
    have fits := shape.width?_le _ _ measured
    have spelled := shape.spells_take _ _ measured
    have within := shape.width?_of_spells whole _ ((c :: part).drop (width + 1) ++ mark :: rest)
      spelled
    rwa [← List.append_assoc, List.take_append_drop, List.length_take, Nat.min_eq_left fits]
      at within

theorem segments_append_opener (before rest : Text) :
    shape.segments (before ++ mark :: rest) =
      shape.segments before ++ shape.segments (mark :: rest) := by
  induction before using shape.scanInduction with
  | nil => rfl
  | found part before filled measured ih =>
    obtain ⟨c, tail, rfl⟩ := List.exists_cons_of_ne_nil filled
    have same := (width?_append_opener opens whole c (tail ++ before) rest tail.length).mpr measured
    rw [List.append_assoc, ← List.cons_append] at same
    rw [List.append_assoc, shape.segments_measured _ _ filled same, ih,
      shape.segments_measured _ before filled measured]
    rfl
  | kept c before unmatched ih =>
    have same := width?_append_opener opens whole c before rest
    rw [List.cons_append, shape.segments_kept c _
        (fun width measured => unmatched width ((same width).mp measured)), ih,
      shape.segments_kept c before unmatched]
    rfl

theorem found_iff (text before part after : Text) :
    (∃ first later, shape.segments text = first ++ .found part :: later ∧
      first.flatMap Segment.source = before ∧ later.flatMap Segment.source = after) ↔
    shape.Spells part ∧ text = before ++ (part ++ after) := by
  constructor
  · rintro ⟨first, later, cut, rfl, rfl⟩
    refine ⟨shape.spells_of_found text part (by simp [cut]), ?_⟩
    rw [← shape.source_segments text, cut, List.flatMap_append, List.flatMap_cons]
    rfl
  · rintro ⟨spelled, cut⟩
    obtain ⟨first, later, segments, firstText⟩ :=
      (divides_segments opens whole text).complete before part after spelled cut
    refine ⟨first, later, segments, firstText, ?_⟩
    have source := shape.source_segments text
    rw [segments, List.flatMap_append, List.flatMap_cons, firstText, cut] at source
    exact List.append_cancel_left (List.append_cancel_left source)

end Divisions

end Shape

theorem occurrences_rewritten {mark : Char} {word : Text} (opens : word.OpensWith mark)
    (segments : List Segment) (marks : Marks mark Segment.source segments)
    (absent : ∀ part, .found part ∈ segments → ∀ rest, word.isPrefixOf (part ++ rest) = false) :
    Text.occurrences word (segments.flatMap (Segment.rewritten word)) =
      Text.occurrences word (segments.flatMap Segment.source) +
        segments.countP Segment.isFound := by
  obtain ⟨tail, rfl, foreign⟩ := opens
  induction segments with
  | nil => rfl
  | cons segment segments ih =>
    have rest := ih marks.tail fun part member => absent part (List.mem_cons_of_mem _ member)
    have rewritten : Marks mark (Segment.rewritten (mark :: tail)) segments :=
      Marks.rewritten ⟨tail, rfl, foreign⟩ segments
    rw [List.flatMap_cons, List.flatMap_cons, List.countP_cons]
    cases segment with
    | kept c =>
      have same : (mark :: tail).isPrefixOf
            (c :: segments.flatMap (Segment.rewritten (mark :: tail))) =
          (mark :: tail).isPrefixOf (c :: segments.flatMap Segment.source) := by
        rw [Bool.eq_iff_iff, List.isPrefixOf_iff_prefix, List.isPrefixOf_iff_prefix,
          List.cons_prefix_cons, List.cons_prefix_cons]
        refine and_congr_right fun _ => ⟨?_, ?_⟩
        · rintro ⟨after, spelled⟩
          obtain ⟨later, rfl, -⟩ := rewritten.eq_kept tail after foreign spelled.symm
          simp [List.flatMap_append]
        · rintro ⟨after, spelled⟩
          obtain ⟨later, rfl, -⟩ := marks.tail.eq_kept tail after foreign spelled.symm
          simp [List.flatMap_append]
      have unfound : Segment.isFound (.kept c) = false := rfl
      simp only [Segment.rewritten, Segment.source, List.singleton_append, Text.occurrences_cons,
        same, rest, unfound, Bool.false_eq_true, if_false]
      omega
    | found part =>
      obtain ⟨partTail, partText, level⟩ := marks.found part (by simp)
      have missed := absent part (by simp) (segments.flatMap Segment.source)
      simp only [Segment.source] at partText
      subst partText
      have begins : (mark :: tail).isPrefixOf
          (mark :: (tail ++ segments.flatMap (Segment.rewritten (mark :: tail)))) = true := by
        simp
      have found : Segment.isFound (.found (mark :: partTail)) = true := rfl
      simp only [Segment.rewritten, Segment.source, List.cons_append, Text.occurrences_cons,
        Text.occurrences_append mark tail _ _ foreign, Text.occurrences_append mark tail _ _ level,
        begins, rest, found, if_true] at missed ⊢
      simp only [missed, Bool.false_eq_true, if_false]
      omega

end RouteMigration
