import RouteMigration.Proofs.Route.OwnText
import RouteMigration.Proofs.Shape.Locality

set_option autoImplicit false

namespace RouteMigration

namespace Route

/-- An edit that takes out a line end or a cookie field, so what is around it comes together. -/
def Edit.Gathers : Edit → Prop
  | .replaced rule segment => rule = .cookieField ∨ '\n' ∈ segment
  | _ => False

theorem source_scannedBy (rule : Rule) (edit : Edit) :
    (edit.scannedBy rule).flatMap Segment.source = edit.textAfter (rule.step - 1) := by
  have several := rule.one_lt_step
  cases edit with
  | kept c => exact Segment.source_kept [c]
  | imported before after => exact Segment.source_kept _
  | replaced used segment =>
    by_cases own : used = rule
    · subst own
      have unapplied : ¬ used.step ≤ used.step - 1 := by omega
      simp [Edit.scannedBy, Segment.source, Edit.textAfter, unapplied]
    · simp only [Edit.scannedBy, own, if_false, Segment.source_kept]

namespace Script

theorem Retraces.unmatched {content : Text} {script : Script} (retraces : Retraces 5 content script)
    (rule : Rule) (first later : Script) (c : Char) (cut : script = first ++ .kept c :: later)
    (width : Nat) :
    rule.shape.width? (c :: textAfter (rule.step - 1) later) ≠ some (width + 1) := by
  have segments : rule.shape.segments (textAfter (rule.step - 1) script) =
      first.flatMap (Edit.scannedBy rule) ++ .kept c :: later.flatMap (Edit.scannedBy rule) := by
    rw [retraces.scanned rule rule.step_le_five, cut, List.flatMap_append, List.flatMap_cons]
    rfl
  have source : (later.flatMap (Edit.scannedBy rule)).flatMap Segment.source =
      textAfter (rule.step - 1) later := by
    rw [List.flatMap_assoc]
    simp only [source_scannedBy]
    rfl
  rw [← source]
  exact rule.shape.unmatched_of_kept _ _ _ c segments width

/-- A part of a new text runs across an edit when some of it stands on each side. -/
def Crosses (script : Script) (before occurrence after : Text) (edit : Edit) : Prop :=
  ∃ first left right last : Script, script = first ++ (left ++ edit :: right ++ last) ∧
    textAfter 5 first = before ∧ textAfter 5 (left ++ edit :: right) = occurrence ∧
    textAfter 5 last = after ∧ textAfter 5 left ≠ [] ∧ textAfter 5 right ≠ []

theorem textAfter_ne_nil_of_last (steps : Nat) (left right : Script) (edit : Edit)
    (empty : edit.textAfter steps = [])
    (ends : ∀ last, (left ++ edit :: right).getLast? = some last → last.textAfter steps ≠ []) :
    textAfter steps right ≠ [] := by
  rcases List.eq_nil_or_concat right with rfl | ⟨others, last, rfl⟩
  · exact absurd empty (ends edit (by simp))
  · intro none
    rw [List.concat_eq_append, textAfter_append, List.append_eq_nil_iff] at none
    have final : (left ++ edit :: others.concat last).getLast? = some last := by
      rw [List.concat_eq_append, ← List.cons_append, ← List.append_assoc, List.getLast?_concat]
    rw [textAfter_cons] at none
    exact ends last final (List.append_eq_nil_iff.mp none.2).1

end Script

theorem opensFilled_shape (rule : Rule) : rule.shape.opensFilled = true := by
  cases rule <;> decide

theorem firm_shape (rule : Rule) (other : rule ≠ .cookieExtraction) : rule.shape.firm = true := by
  cases rule with
  | cookieExtraction => exact absurd rfl other
  | cookieHeaders | jsonHeaders | cookieField => decide

theorem lone_or_apart (shape : Shape) (occurrence : Text) (whole : shape.firm = true)
    (spelled : shape.Spells occurrence)
    (importClear : ∀ form ∈ Edit.importForms,
      shape.avoids (form.1 ++ helperImportLine ++ form.2) = true)
    (marksClear : ∀ text ∈ [extractionMarker, helperCall], shape.avoids text = true)
    (edit : Edit) (within : edit.Within 5) :
    edit.Lone 5 ∨ Apart occurrence (edit.textAfter 5) := by
  have clear (text : Text) (avoided : shape.avoids text = true) : Apart occurrence text :=
    shape.apart_of_avoids occurrence text
      (fun rest => shape.width?_of_spells whole occurrence rest spelled) avoided
  cases edit with
  | kept c => exact .inl (.inl ⟨c, rfl⟩)
  | imported before after => exact .inr (clear _ (importClear (before, after) within))
  | replaced rule segment =>
    simp only [Edit.Lone, Edit.textAfter, rule.step_le_five, if_true]
    cases rule with
    | cookieField => exact .inl (.inr rfl)
    | cookieExtraction => exact .inr (clear _ (marksClear _ (by simp [Rule.replacement])))
    | cookieHeaders => exact .inr (clear _ (marksClear _ (by simp [Rule.replacement])))
    | jsonHeaders => exact .inr (clear _ (marksClear _ (by simp [Rule.replacement])))

namespace Script

variable {content : Text} {script : Script}

theorem crosses_of_spelled (retraces : Retraces 5 content script) (rule : Rule)
    (other : rule ≠ .cookieExtraction) (before occurrence after : Text)
    (spelled : rule.shape.Spells occurrence)
    (text : textAfter 5 script = before ++ (occurrence ++ after)) :
    ∃ segment, script.Crosses before occurrence after (.replaced .cookieField segment) := by
  have marksClear : ∀ mark ∈ [extractionMarker, helperCall], rule.shape.avoids mark = true := by
    cases rule with
    | cookieExtraction => exact absurd rfl other
    | cookieHeaders | jsonHeaders | cookieField => decide +kernel
  obtain ⟨c, part, rfl, -⟩ :=
    Shape.exists_filled rule.shape occurrence (opensFilled_shape rule) spelled
  obtain ⟨first, middle, last, cut, firstText, middleText, lastText, lone, ends⟩ :=
    exists_lone 5 part c script
      (fun edit member => lone_or_apart rule.shape _ (firm_shape rule other) spelled
        (avoids_import rule) marksClear edit (retraces.within edit member))
      before after text
  have owned : ∀ edit ∈ middle, edit.Own := fun edit member => own_of_lone edit (lone edit member)
  by_cases removed : ∃ segment, Edit.replaced .cookieField segment ∈ middle
  · obtain ⟨segment, member⟩ := removed
    obtain ⟨left, right, rfl⟩ := List.append_of_mem member
    refine ⟨segment, first, .kept c :: left, right, last, cut, firstText, ?_, lastText, ?_, ?_⟩
    · rw [List.cons_append, textAfter_cons, middleText]
      rfl
    · simp [textAfter_cons, Edit.textAfter]
    · exact textAfter_ne_nil_of_last 5 left right _ rfl ends
  · -- Unbroken, it stood there when the rule's own step looked.
    have kept := eq_kept middle owned (fun segment member => removed ⟨segment, member⟩)
    rw [middleText] at kept
    have unmatched := retraces.unmatched rule first (middle ++ last) c (by simpa using cut)
      part.length
    rw [kept, textAfter_append, textAfter_kept, ← List.cons_append,
      rule.shape.width?_of_spells (firm_shape rule other) (c :: part) _ spelled] at unmatched
    exact absurd rfl unmatched

end Script

/-- The part of the statement that reads the cookie whose spelling is fixed. -/
def extractionOpening : Shape :=
  cookieExtraction.dropLast

theorem cookieExtraction_eq : cookieExtraction = extractionOpening ++ [.statementEnd] := rfl

theorem exists_width?_statementEnd (lead rest : Text) (level : '\n' ∉ lead) :
    ∃ width, Shape.width? [.statementEnd] (lead ++ ';' :: rest) = some (width + 1) := by
  have measured : ∃ width, Piece.statementEnd.width? (lead ++ ';' :: rest) = some (width + 1) := by
    induction lead with
    | nil => exact ⟨0, by simp [Piece.width?, isBeforeStatementEnd]⟩
    | cons c lead ih =>
      simp only [List.mem_cons, not_or] at level
      by_cases ended : c = ';'
      · exact ⟨0, by simp [Piece.width?, isBeforeStatementEnd, ended]⟩
      · have passed : isBeforeStatementEnd c = true := by
          simp [isBeforeStatementEnd, ended, Ne.symm level.1]
        obtain ⟨width, measured⟩ := ih level.2
        simp only [Piece.width?, Option.ite_none_right_eq_some, Option.some.injEq,
          Nat.add_right_cancel_iff] at measured
        obtain ⟨closed, rfl⟩ := measured
        rw [List.head?_drop] at closed
        exact ⟨((lead ++ ';' :: rest).takeWhile isBeforeStatementEnd).length + 1,
          by simp [Piece.width?, passed, closed]⟩
  obtain ⟨width, measured⟩ := measured
  exact ⟨width, by simp [Shape.width?, measured]⟩

theorem exists_width?_of_spells (rule : Rule) (part rest : Text)
    (spelled : rule.shape.Spells part) :
    ∃ width, rule.shape.width? (part ++ rest) = some (width + 1) := by
  by_cases reads : rule = .cookieExtraction
  · subst reads
    -- What follows can lengthen the statement only if it has one more semicolon on the line.
    rw [Rule.shape, cookieExtraction_eq, Shape.spells_append] at spelled
    obtain ⟨opening, _, rfl, openingSpelled, _, _, rfl, ⟨lead, rfl, level⟩, rfl⟩ := spelled
    obtain ⟨width, ended⟩ := exists_width?_statementEnd lead rest level
    refine ⟨opening.length + width, ?_⟩
    rw [Rule.shape, cookieExtraction_eq, Shape.width?_append, List.append_assoc,
      extractionOpening.width?_of_spells (by decide) opening _ openingSpelled, Option.bind_some,
      List.drop_left, List.append_nil, List.append_assoc, List.singleton_append, ended]
    rfl
  · obtain ⟨c, tail, rfl, -⟩ := rule.shape.exists_filled part (opensFilled_shape rule) spelled
    exact ⟨tail.length, rule.shape.width?_of_spells (firm_shape rule reads) _ rest spelled⟩

def endsLineFirst (text : Text) : Bool :=
  !text.contains ';' || (text.takeWhile (· != ';')).contains '\n'

theorem not_level_of_endsLineFirst (text lead more : Text) (ends : endsLineFirst text = true)
    (cut : text = lead ++ ';' :: more) : '\n' ∈ lead := by
  subst cut
  simp only [endsLineFirst, List.contains_append, List.contains_cons, BEq.rfl, Bool.true_or,
    Bool.or_true, Bool.not_true, Bool.false_or] at ends
  rw [List.contains_iff_mem, List.takeWhile_append] at ends
  split at ends
  · simpa using ends
  · exact (List.takeWhile_prefix _).subset ends

theorem endsLineFirst_textAfter (edit : Edit) (within : edit.Within 5)
    (fixed : ∀ c, edit ≠ .kept c) : endsLineFirst (edit.textAfter 5) = true := by
  cases edit with
  | kept c => exact absurd rfl (fixed c)
  | imported before after =>
    have all : ∀ form ∈ Edit.importForms,
        endsLineFirst (form.1 ++ helperImportLine ++ form.2) = true := by decide +kernel
    exact all (before, after) within
  | replaced rule segment =>
    simp only [Edit.textAfter, rule.step_le_five, if_true]
    cases rule <;> decide +kernel

namespace Script

theorem exists_kept_semicolon (script : Script) (within : ∀ edit ∈ script, edit.Within 5)
    (lead after : Text) (level : '\n' ∉ lead)
    (text : textAfter 5 script = lead ++ ';' :: after) :
    ∃ first last : Script, script = first ++ .kept ';' :: last ∧ textAfter 5 first = lead ∧
      textAfter 5 last = after := by
  induction script generalizing lead with
  | nil => simp [textAfter] at text
  | cons edit script ih =>
    have withinLater : ∀ other ∈ script, other.Within 5 :=
      fun other member => within other (List.mem_cons_of_mem _ member)
    rw [textAfter_cons] at text
    rcases List.append_eq_append_iff.mp text with ⟨between, rfl, rest⟩ | ⟨inside, whole, rest⟩
    · rw [List.mem_append, not_or] at level
      obtain ⟨first, last, rfl, firstText, lastText⟩ := ih withinLater between level.2 rest
      exact ⟨edit :: first, last, rfl, by rw [textAfter_cons, firstText], lastText⟩
    cases inside with
    | nil =>
      rw [List.append_nil] at whole
      obtain ⟨first, last, rfl, firstText, lastText⟩ := ih withinLater [] (by simp) rest.symm
      exact ⟨edit :: first, last, rfl, by rw [textAfter_cons, firstText, whole, List.append_nil],
        lastText⟩
    | cons c inside =>
      obtain ⟨rfl, behind⟩ := List.cons.inj rest
      by_cases fixed : ∀ c, edit ≠ .kept c
      · have ends := endsLineFirst_textAfter edit (within edit (by simp)) fixed
        exact absurd (not_level_of_endsLineFirst _ lead inside ends whole) level
      · obtain ⟨kept, rfl⟩ : ∃ kept, edit = .kept kept := by simpa using fixed
        rcases List.singleton_eq_append_iff.mp whole with ⟨rfl, single⟩ | ⟨-, none⟩
        · simp only [List.cons.injEq] at single
          obtain ⟨rfl, rfl⟩ := single
          exact ⟨[], script, rfl, rfl, behind.symm⟩
        · cases none

theorem level_of_ungathered (script : Script) (within : ∀ edit ∈ script, edit.Within 5)
    (level : '\n' ∉ textAfter 5 script) (ungathered : ∀ edit ∈ script, ¬ edit.Gathers) :
    '\n' ∉ textAfter 1 script := by
  induction script with
  | nil => simp [textAfter]
  | cons edit script ih =>
    rw [textAfter_cons, List.mem_append, not_or] at level ⊢
    refine ⟨?_, ih (fun other member => within other (List.mem_cons_of_mem _ member)) level.2
      fun other member => ungathered other (List.mem_cons_of_mem _ member)⟩
    cases edit with
    | kept c => exact level.1
    | imported before after => exact level.1
    | replaced rule segment =>
      have several := rule.one_lt_step
      have unapplied : ¬ rule.step ≤ 1 := by omega
      simp only [Edit.textAfter, unapplied, if_false]
      exact fun member => ungathered (.replaced rule segment) (by simp) (.inr member)

theorem crosses_of_extraction {content : Text} {script : Script}
    (retraces : Retraces 5 content script) (before occurrence after : Text)
    (spelled : cookieExtraction.Spells occurrence)
    (text : textAfter 5 script = before ++ (occurrence ++ after)) :
    ∃ edit, script.Crosses before occurrence after edit ∧ edit.Gathers := by
  rw [cookieExtraction_eq, Shape.spells_append] at spelled
  obtain ⟨opening, _, rfl, openingSpelled, _, _, rfl, ⟨lead, rfl, level⟩, rfl⟩ := spelled
  obtain ⟨c, part, rfl, -⟩ :=
    Shape.exists_filled extractionOpening opening (by decide) openingSpelled
  rw [List.append_nil, List.append_assoc, List.append_assoc, List.singleton_append] at text
  obtain ⟨first, middle, later, rfl, firstText, middleText, laterText, lone, -⟩ :=
    exists_lone 5 part c script
      (fun edit member => lone_or_apart extractionOpening _ (by decide) openingSpelled
        (by decide +kernel) (by decide +kernel) edit (retraces.within edit member))
      before _ text
  have within : ∀ edit ∈ later, edit.Within 5 :=
    fun edit member => retraces.within edit (by simp [member])
  obtain ⟨tail, last, rfl, tailText, lastText⟩ :=
    exists_kept_semicolon later within lead after level laterText
  by_cases gathered : ∃ edit ∈ middle ++ tail, edit.Gathers
  · obtain ⟨edit, member, gathers⟩ := gathered
    obtain ⟨left, right, cut⟩ := List.append_of_mem member
    have whole : Edit.kept c :: left ++ edit :: (right ++ [.kept ';']) =
        .kept c :: (middle ++ tail) ++ [.kept ';'] := by
      rw [cut]
      simp
    refine ⟨edit, ⟨first, .kept c :: left, right ++ [.kept ';'], last, ?_, firstText, ?_, lastText,
      ?_, ?_⟩, gathers⟩
    · rw [whole]
      simp
    · rw [whole, textAfter_append, textAfter_cons, textAfter_append, middleText, tailText]
      simp [textAfter, Edit.textAfter]
    · simp [textAfter_cons, Edit.textAfter]
    · simp [textAfter, Edit.textAfter]
  · -- Nothing was gathered, so the whole statement stood there when its own step looked.
    have ungathered : ∀ edit ∈ middle ++ tail, ¬ edit.Gathers :=
      fun edit member gathers => gathered ⟨edit, member, gathers⟩
    have kept := eq_kept middle (fun edit member => own_of_lone edit (lone edit member))
      fun segment member => ungathered _ (List.mem_append_left _ member) (.inl rfl)
    have levelBefore : '\n' ∉ textAfter 1 tail := by
      apply level_of_ungathered
      · exact fun edit member => within edit (List.mem_append_left _ member)
      · rwa [tailText]
      · exact fun edit member => ungathered edit (List.mem_append_right _ member)
    have spelledBefore : Rule.cookieExtraction.shape.Spells
        (c :: part ++ (textAfter 1 tail ++ [';'])) :=
      (Shape.spells_append extractionOpening [.statementEnd] _).mpr
        ⟨c :: part, _, rfl, openingSpelled, _, [], by simp, ⟨_, rfl, levelBefore⟩, rfl⟩
    obtain ⟨width, measured⟩ :=
      exists_width?_of_spells .cookieExtraction _ (textAfter 1 last) spelledBefore
    have unmatched := retraces.unmatched .cookieExtraction first
      (middle ++ (tail ++ .kept ';' :: last)) c rfl width
    rw [textAfter_append, kept, textAfter_kept, middleText, textAfter_append, textAfter_cons]
      at unmatched
    refine absurd ?_ unmatched
    rw [← measured, List.append_assoc, List.append_assoc]
    rfl

end Script

end Route

end RouteMigration
