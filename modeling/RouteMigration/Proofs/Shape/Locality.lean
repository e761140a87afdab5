import Mathlib.Data.List.Infix
import RouteMigration.Shape.Replacement

set_option autoImplicit false

namespace RouteMigration

def Piece.excludes (c : Char) : Piece → Bool
  | .literal expected => !expected.contains c
  | .quoteMark => !isQuoteMark c
  | .blanks => !isBlank c
  | .statementEnd => c == '\n'

namespace Shape

def excludes (c : Char) (shape : Shape) : Bool :=
  shape.all (Piece.excludes c)

end Shape

theorem isPrefixOf_append_cons (expected text rest : Text) (c : Char) (foreign : c ∉ expected) :
    expected.isPrefixOf (text ++ c :: rest) = expected.isPrefixOf text := by
  induction expected generalizing text with
  | nil => simp
  | cons head later ih =>
    rw [List.mem_cons, not_or] at foreign
    cases text with
    | nil =>
      have different : (head == c) = false := by simpa using fun same => foreign.1 same.symm
      simp [List.isPrefixOf, different]
    | cons first text => simp [List.isPrefixOf, ih text foreign.2]

theorem takeWhile_append_cons (test : Char → Bool) (text rest : Text) (c : Char)
    (stops : test c = false) : (text ++ c :: rest).takeWhile test = text.takeWhile test := by
  induction text with
  | nil => simp [stops]
  | cons first text ih => simp [List.takeWhile_cons, ih]

theorem Piece.width?_append_cons (piece : Piece) (text rest : Text) (c : Char)
    (excluded : piece.excludes c = true) :
    piece.width? (text ++ c :: rest) = piece.width? text := by
  cases piece with
  | literal expected =>
    have foreign : c ∉ expected := by simpa [excludes] using excluded
    simp only [width?, isPrefixOf_append_cons expected text rest c foreign]
  | quoteMark =>
    have unquoted : isQuoteMark c = false := by simpa [excludes] using excluded
    cases text <;> simp [width?, unquoted]
  | blanks =>
    have stops : isBlank c = false := by simpa [excludes] using excluded
    simp only [width?, takeWhile_append_cons isBlank text rest c stops]
  | statementEnd =>
    obtain rfl : c = '\n' := by simpa [excludes] using excluded
    have bound := (List.takeWhile_prefix isBeforeStatementEnd (l := text)).length_le
    have same := takeWhile_append_cons isBeforeStatementEnd text rest '\n' (by decide)
    simp only [width?, same, List.drop_append_of_le_length bound]
    cases text.drop (text.takeWhile isBeforeStatementEnd).length <;> simp

namespace Shape

variable (shape : Shape) (c : Char) (excluded : shape.excludes c = true)

include excluded

theorem width?_append_cons (text rest : Text) :
    shape.width? (text ++ c :: rest) = shape.width? text := by
  induction shape generalizing text with
  | nil => rfl
  | cons piece later ih =>
    simp only [excludes, List.all_cons, Bool.and_eq_true] at excluded
    simp only [width?, piece.width?_append_cons text rest c excluded.1]
    cases measured : piece.width? text with
    | none => rfl
    | some width =>
      have fits := piece.width?_le text width measured
      simp only [Option.bind_some, List.drop_append_of_le_length fits,
        ih excluded.2 (text.drop width)]

theorem segments_append_cons (before after : Text) :
    shape.segments (before ++ c :: after) =
      shape.segments before ++ .kept c :: shape.segments after := by
  induction before using shape.scanInduction with
  | nil =>
    refine shape.segments_kept c after ?_
    intro width measured
    have same := shape.width?_append_cons c excluded [] after
    rw [List.nil_append, measured] at same
    have fits := shape.width?_le [] (width + 1) same.symm
    simp at fits
  | found part before filled measured ih =>
    have same := shape.width?_append_cons c excluded (part ++ before) after
    rw [measured, List.append_assoc] at same
    rw [List.append_assoc, shape.segments_measured part _ filled same, ih,
      shape.segments_measured part before filled measured]
    rfl
  | kept first before unmatched ih =>
    have same := shape.width?_append_cons c excluded (first :: before) after
    rw [List.cons_append] at same ⊢
    rw [shape.segments_kept first _ (by rw [same]; exact unmatched), ih,
      shape.segments_kept first before unmatched]
    rfl

theorem replaceAll_append_cons (replacement before after : Text) :
    shape.replaceAll replacement (before ++ c :: after) =
      shape.replaceAll replacement before ++ c :: shape.replaceAll replacement after := by
  simp [replaceAll, shape.segments_append_cons c excluded, Segment.rewritten]

end Shape

namespace Shape

theorem replaceAll_kept (shape : Shape) (replacement : Text) (c : Char) (rest : Text)
    (unmatched : ∀ width, shape.width? (c :: rest) ≠ some (width + 1)) :
    shape.replaceAll replacement (c :: rest) = c :: shape.replaceAll replacement rest := by
  simp [replaceAll, shape.segments_kept c rest unmatched, Segment.rewritten]

theorem replaceAll_measured (shape : Shape) (replacement text : Text) (width : Nat)
    (measured : shape.width? text = some (width + 1)) :
    shape.replaceAll replacement text =
      replacement ++ shape.replaceAll replacement (text.drop (width + 1)) := by
  cases text with
  | nil => exact absurd (shape.width?_le [] (width + 1) measured) (by simp)
  | cons c rest =>
    simp only [replaceAll, shape.segments_found c rest width measured, List.flatMap_cons,
      Segment.rewritten]

theorem replaceAll_found (shape : Shape) (replacement part rest : Text) (filled : part ≠ [])
    (measured : shape.width? (part ++ rest) = some part.length) :
    shape.replaceAll replacement (part ++ rest) =
      replacement ++ shape.replaceAll replacement rest := by
  rw [replaceAll, shape.segments_measured part rest filled measured]
  rfl

theorem eq_nil_of_replaceAll (shape : Shape) (replacement : Text) (filled : replacement ≠ [])
    (text : Text) (void : shape.replaceAll replacement text = []) : text = [] := by
  cases text with
  | nil => rfl
  | cons c rest =>
    rcases shape.segments_cons c rest with ⟨width, -, step⟩ | ⟨-, step⟩
    · rw [replaceAll, step, List.flatMap_cons, List.append_eq_nil_iff] at void
      exact absurd void.1 filled
    · rw [replaceAll, step, List.flatMap_cons] at void
      cases void

theorem exists_of_replaceAll_eq_append (shape : Shape) (replacement : Text) (mark : Char)
    (opens : replacement.head? = some mark) (lead rest text : Text) (foreign : mark ∉ lead)
    (same : shape.replaceAll replacement text = lead ++ rest) :
    ∃ later, text = lead ++ later ∧ shape.replaceAll replacement later = rest := by
  obtain ⟨tail, rfl⟩ := List.head?_eq_some_iff.mp opens
  induction lead generalizing text with
  | nil => exact ⟨text, rfl, same⟩
  | cons c lead ih =>
    rw [List.mem_cons, not_or] at foreign
    cases text with
    | nil => cases same
    | cons d text =>
      by_cases measured : ∃ width, shape.width? (d :: text) = some (width + 1)
      · obtain ⟨width, measured⟩ := measured
        rw [shape.replaceAll_measured _ _ width measured] at same
        exact absurd (List.cons.inj same).1 foreign.1
      · rw [shape.replaceAll_kept _ d text fun width found => measured ⟨width, found⟩] at same
        obtain ⟨rfl, behind⟩ := List.cons.inj same
        obtain ⟨later, rfl, rewritten⟩ := ih text foreign.2 behind
        exact ⟨later, rfl, rewritten⟩

def opener? : Shape → Option Char
  | .literal (c :: _) :: _ => some c
  | _ => none

theorem eq_opener (shape : Shape) (mark : Char) (opens : shape.opener? = some mark) (c : Char)
    (rest : Text) (width : Nat) (measured : shape.width? (c :: rest) = some width) : c = mark := by
  match shape with
  | .literal (head :: expected) :: later =>
    cases opens
    simp only [width?, Option.bind_eq_some_iff, Piece.width?, Option.ite_none_right_eq_some]
      at measured
    obtain ⟨_, ⟨found, -⟩, -⟩ := measured
    exact (List.cons_prefix_cons.mp (List.isPrefixOf_iff_prefix.mp found)).1.symm

theorem exists_opener (shape : Shape) (mark : Char) (opens : shape.opener? = some mark) (text : Text)
    (width : Nat) (measured : shape.width? text = some width) : ∃ rest, text = mark :: rest := by
  cases text with
  | nil =>
    match shape with
    | .literal (c :: expected) :: later => simp [width?, Piece.width?] at measured
  | cons c rest => exact ⟨rest, by rw [shape.eq_opener mark opens c rest width measured]⟩

theorem segments_level (shape : Shape) (mark : Char) (opens : shape.opener? = some mark)
    (lead rest : Text) (level : mark ∉ lead) :
    shape.segments (lead ++ rest) = lead.map .kept ++ shape.segments rest := by
  induction lead with
  | nil => rfl
  | cons c lead ih =>
    rw [List.mem_cons, not_or] at level
    have unmatched : ∀ width, shape.width? (c :: (lead ++ rest)) ≠ some (width + 1) :=
      fun width measured => level.1 (shape.eq_opener mark opens c _ _ measured).symm
    rw [List.cons_append, shape.segments_kept c _ unmatched, ih level.2]
    rfl

theorem replaceAll_level (shape : Shape) (mark : Char) (opens : shape.opener? = some mark)
    (replacement lead rest : Text) (level : mark ∉ lead) :
    shape.replaceAll replacement (lead ++ rest) = lead ++ shape.replaceAll replacement rest := by
  rw [replaceAll, shape.segments_level mark opens lead rest level, List.flatMap_append,
    Segment.rewritten_kept]
  rfl

def opensFilled : Shape → Bool
  | .literal (c :: _) :: _ => !isBlank c
  | .quoteMark :: _ => true
  | _ => false

/-- Whether nothing that follows an occurrence could lengthen it. -/
def firm : Shape → Bool
  | [] => true
  | .literal _ :: later | .quoteMark :: later => firm later
  | .blanks :: later => opensFilled later && firm later
  | .statementEnd :: _ => false

theorem exists_filled (shape : Shape) (part : Text) (opens : shape.opensFilled = true)
    (spelled : shape.Spells part) : ∃ c rest, part = c :: rest ∧ isBlank c = false := by
  match shape with
  | .literal (c :: expected) :: later =>
    obtain ⟨_, rest, rfl, rfl, -⟩ := spelled
    exact ⟨c, expected ++ rest, rfl, by simpa [opensFilled] using opens⟩
  | .quoteMark :: later =>
    obtain ⟨_, rest, rfl, rfl | rfl, -⟩ := spelled
    · exact ⟨'"', rest, rfl, by decide⟩
    · exact ⟨'\'', rest, rfl, by decide⟩

theorem width?_of_spells (shape : Shape) (whole : shape.firm = true) (part rest : Text)
    (spelled : shape.Spells part) : shape.width? (part ++ rest) = some part.length := by
  induction shape generalizing part with
  | nil =>
    obtain rfl : part = [] := spelled
    rfl
  | cons piece later ih =>
    obtain ⟨head, tail, rfl, headSpelled, tailSpelled⟩ := spelled
    have measured : piece.width? (head ++ (tail ++ rest)) = some head.length := by
      cases piece with
      | literal expected =>
        obtain rfl : head = expected := headSpelled
        simp [Piece.width?]
      | quoteMark => rcases headSpelled with rfl | rfl <;> simp [Piece.width?, isQuoteMark]
      | blanks =>
        simp only [firm, Bool.and_eq_true] at whole
        obtain ⟨c, others, rfl, filled⟩ := exists_filled later tail whole.1 tailSpelled
        rw [Piece.width?, List.takeWhile_append_of_pos headSpelled]
        simp [filled]
      | statementEnd => cases whole
    have wholeLater : firm later = true := by
      cases piece with
      | literal expected => exact whole
      | quoteMark => exact whole
      | blanks => exact (Bool.and_eq_true_iff.mp whole).2
      | statementEnd => cases whole
    rw [List.append_assoc, width?, measured, Option.bind_some, List.drop_left,
      ih wholeLater tail tailSpelled, List.length_append]
    rfl

theorem width?_append (first second : Shape) (text : Text) :
    Shape.width? (first ++ second) text = (first.width? text).bind fun width =>
      (second.width? (text.drop width)).map fun rest => width + rest := by
  induction first generalizing text with
  | nil => simp [width?]
  | cons piece later ih =>
    simp only [List.cons_append, width?, ih]
    cases piece.width? text with
    | none => rfl
    | some head =>
      simp only [Option.bind_some]
      cases Shape.width? later (text.drop head) with
      | none => rfl
      | some middle =>
        simp only [Option.bind_some, Option.map_some, Option.map_map, Function.comp_def,
          List.drop_drop, Nat.add_assoc]

theorem spells_append (first second : Shape) (text : Text) :
    Shape.Spells (first ++ second) text ↔
      ∃ head rest, text = head ++ rest ∧ first.Spells head ∧ second.Spells rest := by
  induction first generalizing text with
  | nil => simp [Spells]
  | cons piece later ih =>
    simp only [List.cons_append, Spells, ih]
    constructor
    · rintro ⟨head, _, rfl, spelled, middle, rest, rfl, middleSpelled, restSpelled⟩
      exact ⟨head ++ middle, rest, by simp, ⟨head, middle, rfl, spelled, middleSpelled⟩,
        restSpelled⟩
    · rintro ⟨_, rest, rfl, ⟨head, middle, rfl, spelled, middleSpelled⟩, restSpelled⟩
      exact ⟨head, middle ++ rest, by simp, spelled, middle, rest, rfl, middleSpelled, restSpelled⟩

theorem segments_suffix (shape : Shape) (text : Text) (first later : List Segment)
    (cut : shape.segments text = first ++ later) :
    shape.segments (later.flatMap Segment.source) = later := by
  induction first generalizing text with
  | nil =>
    have source := shape.source_segments text
    rw [cut, List.nil_append] at source
    rw [source, cut, List.nil_append]
  | cons segment first ih =>
    cases text with
    | nil => cases cut
    | cons c rest =>
      rcases shape.segments_cons c rest with ⟨width, -, step⟩ | ⟨-, step⟩
      · exact ih _ (List.cons.inj (step.symm.trans cut)).2
      · exact ih _ (List.cons.inj (step.symm.trans cut)).2

theorem unmatched_of_kept (shape : Shape) (text : Text) (first later : List Segment) (c : Char)
    (cut : shape.segments text = first ++ .kept c :: later) (width : Nat) :
    shape.width? (c :: later.flatMap Segment.source) ≠ some (width + 1) := by
  have here : shape.segments (c :: later.flatMap Segment.source) = .kept c :: later :=
    shape.segments_suffix text first (.kept c :: later) cut
  intro measured
  rw [shape.segments_found c _ width measured] at here
  cases (List.cons.inj here).1

theorem width?_of_found (shape : Shape) (text : Text) (first later : List Segment) (part : Text)
    (cut : shape.segments text = first ++ .found part :: later) :
    shape.width? (part ++ later.flatMap Segment.source) = some part.length := by
  have here : shape.segments (part ++ later.flatMap Segment.source) = .found part :: later :=
    shape.segments_suffix text first (.found part :: later) cut
  cases whole : part ++ later.flatMap Segment.source with
  | nil =>
    rw [whole] at here
    cases here
  | cons c rest =>
    rw [whole] at here
    rcases shape.segments_cons c rest with ⟨width, measured, step⟩ | ⟨-, step⟩
    · cases step.symm.trans here
      have fits := shape.width?_le (c :: rest) _ measured
      rw [measured, List.length_take, Nat.min_eq_left fits]
    · cases step.symm.trans here

theorem replaceAll_of_unspelled (shape : Shape) (replacement text : Text)
    (unspelled : ∀ before occurrence after, occurrence ≠ [] → shape.Spells occurrence →
      text ≠ before ++ (occurrence ++ after)) :
    shape.replaceAll replacement text = text := by
  induction text with
  | nil => rfl
  | cons c rest ih =>
    have later : shape.replaceAll replacement rest = rest := by
      apply ih
      rintro before occurrence after filled spelled rfl
      exact unspelled (c :: before) occurrence after filled spelled rfl
    rw [shape.replaceAll_kept replacement c rest, later]
    intro width measured
    apply unspelled [] ((c :: rest).take (width + 1)) ((c :: rest).drop (width + 1)) (by simp)
    · exact shape.spells_take _ _ measured
    · rw [List.take_append_drop, List.nil_append]

theorem replaceAll_of_not_infix (shape : Shape) (replacement text : Text)
    (absent : ∀ part, shape.Spells part → ¬ part <:+: text) :
    shape.replaceAll replacement text = text := by
  apply shape.replaceAll_of_unspelled
  intro before part after _ spelled cut
  exact absent part spelled ⟨before, after, by rw [cut, List.append_assoc]⟩

theorem mem_of_mem_replaceAll (shape : Shape) (replacement text : Text) (c : Char)
    (member : c ∈ shape.replaceAll replacement text) : c ∈ text ∨ c ∈ replacement := by
  obtain ⟨segment, scanned, inside⟩ := List.mem_flatMap.mp member
  cases segment with
  | kept d =>
    left
    rw [← shape.source_segments text]
    exact List.mem_flatMap.mpr ⟨.kept d, scanned, inside⟩
  | found _ => exact .inr inside

theorem infix_replaceAll (shape : Shape) (replacement text found : Text)
    (member : .found found ∈ shape.segments text) :
    replacement <:+: shape.replaceAll replacement text := by
  obtain ⟨earlier, later, segments⟩ := List.append_of_mem member
  rw [replaceAll, segments, List.flatMap_append, List.flatMap_cons, ← List.append_assoc]
  exact ⟨_, _, rfl⟩

theorem eq_kept_of_unfound (segments : List Segment)
    (unfound : ∀ found, .found found ∉ segments) :
    segments = (segments.flatMap Segment.source).map .kept := by
  induction segments with
  | nil => rfl
  | cons segment later ih =>
    have rest := ih fun found member => unfound found (List.mem_cons_of_mem _ member)
    cases segment with
    | kept c => simpa [Segment.source] using rest
    | found occurrence => exact absurd (List.mem_cons_self ..) (unfound occurrence)

theorem exists_found_of_width? (shape : Shape) (before rest : Text) (width : Nat)
    (measured : shape.width? rest = some (width + 1)) :
    ∃ found, .found found ∈ shape.segments (before ++ rest) := by
  by_contra none
  have segments := eq_kept_of_unfound _ fun found member => none ⟨found, member⟩
  rw [shape.source_segments] at segments
  cases rest with
  | nil => exact absurd (shape.width?_le [] (width + 1) measured) (by simp)
  | cons c rest =>
    have unmatched := shape.unmatched_of_kept _ (before.map .kept) (rest.map .kept) c
      (by rw [segments]; simp) width
    rw [Segment.source_kept] at unmatched
    exact unmatched measured

theorem exists_found (shape : Shape) (whole : shape.firm = true) (before occurrence after : Text)
    (filled : occurrence ≠ []) (spelled : shape.Spells occurrence) :
    ∃ found, .found found ∈ shape.segments (before ++ (occurrence ++ after)) := by
  cases occurrence with
  | nil => exact absurd rfl filled
  | cons c part =>
    exact shape.exists_found_of_width? before _ part.length
      (shape.width?_of_spells whole (c :: part) after spelled)

theorem replaceAll_of_unfound (shape : Shape) (replacement text : Text)
    (unfound : ∀ found, .found found ∉ shape.segments text) :
    shape.replaceAll replacement text = text := by
  have segments := eq_kept_of_unfound _ unfound
  rw [shape.source_segments] at segments
  rw [replaceAll, segments, Segment.rewritten_kept]

end Shape

end RouteMigration
