import Mathlib.Data.List.TakeWhile
import RouteMigration.Proofs.Route.Crossing
import RouteMigration.Proofs.Route.HelperBinding

set_option autoImplicit false

namespace RouteMigration

def StartsLine (before : Text) : Prop :=
  before = [] ∨ before.getLast? = some '\n'

theorem startsLine_behind (lines : List Text) : StartsLine (lines.flatMap (· ++ ['\n'])) := by
  rcases List.eq_nil_or_concat lines with rfl | ⟨others, line, rfl⟩
  · exact .inl rfl
  · right
    simp

theorem exists_join_line (before : List Text) (line : Text) (later : List Text) :
    ∃ head tail, join '\n' (before ++ line :: later) = head ++ (line ++ tail) ∧
      StartsLine head :=
  ⟨_, _, join_around '\n' before line later, startsLine_behind before⟩

theorem exists_line_of_starts (before word after : Text) (starts : StartsLine before)
    (level : '\n' ∉ word) :
    ∃ line ∈ split '\n' (before ++ (word ++ after)), word <+: line := by
  obtain ⟨piece, later, pieces⟩ := exists_split_append '\n' word after level
  refine ⟨word ++ piece, ?_, List.prefix_append word piece⟩
  rcases starts with rfl | ends
  · simp [pieces]
  · obtain ⟨others, rfl⟩ := List.getLast?_eq_some_iff.mp ends
    rw [List.append_assoc, List.singleton_append, split_append_cons, pieces]
    simp

namespace Route

def Anchored (content : Text) : Prop :=
  if Text.holds frameworkImportPrefix content then frameworkImportLine <:+: content
  else ∃ before after, StartsLine before ∧ content = before ++ (importWord ++ after)

theorem spells_frameworkImportLine (occurrence : Text) :
    Shape.Spells [.literal frameworkImportLine] occurrence ↔ occurrence = frameworkImportLine := by
  simp [Shape.Spells, Piece.Spells]

theorem anchored_iff_line (content : Text) (anchored : frameworkImportPrefix <:+: content) :
    Anchored content ↔ frameworkImportLine <:+: content := by
  rw [Anchored, if_pos ((Text.holds_iff _ _).mpr anchored)]

theorem anchored_iff_starts (content : Text) (unanchored : ¬ frameworkImportPrefix <:+: content) :
    Anchored content ↔ ∃ before after, StartsLine before ∧
      content = before ++ (importWord ++ after) := by
  rw [Anchored, if_neg fun held => unanchored ((Text.holds_iff _ _).mp held)]

theorem injectImport_of_not_anchored (content : Text) (free : ¬ Anchored content) :
    injectImport content = content := by
  have placed := injectImport_placed content
  generalize injectImport content = result at placed ⊢
  cases placed with
  | present => rfl
  | nowhere => rfl
  | framework unsourced anchored =>
    rw [anchored_iff_line content anchored] at free
    apply Shape.replaceAll_of_unspelled
    intro before occurrence after _ spelled rfl
    rw [(spells_frameworkImportLine occurrence).mp spelled] at free
    exact free ⟨before, after, by simp⟩
  | afterLine unsourced unanchored before first later lines plain imports =>
    rw [anchored_iff_starts content unanchored] at free
    obtain ⟨rest, rfl⟩ := List.isPrefixOf_iff_prefix.mp imports
    obtain ⟨head, tail, joined, starts⟩ := exists_join_line before (importWord ++ rest) later
    rw [← lines, join_split, List.append_assoc] at joined
    exact absurd ⟨head, rest ++ tail, starts, joined⟩ free

theorem source_injectImport (content : Text) (anchored : Anchored content) :
    helperImportSource <:+: injectImport content := by
  have placed := injectImport_placed content
  generalize injectImport content = result at placed ⊢
  cases placed with
  | present sourced => exact sourced
  | framework unsourced opened =>
    obtain ⟨before, after, rfl⟩ := (anchored_iff_line content opened).mp anchored
    obtain ⟨found, member⟩ := Shape.exists_found [.literal frameworkImportLine] (by decide) before
      frameworkImportLine after (by decide) ((spells_frameworkImportLine _).mpr rfl)
    rw [List.append_assoc]
    apply source_infix_line.trans
    apply List.IsInfix.trans _ (Shape.infix_replaceAll _ _ _ _ member)
    exact (List.suffix_append _ _).isInfix
  | afterLine unsourced unanchored before first later =>
    obtain ⟨head, tail, -, joined⟩ := exists_join_inserted '\n' before first
      (importLineFor content) later
    rw [joined]
    exact (source_infix_importLineFor content).trans ⟨head ++ ['\n'], tail, by simp⟩
  | nowhere unsourced unanchored plain =>
    obtain ⟨before, after, starts, rfl⟩ := (anchored_iff_starts content unanchored).mp anchored
    obtain ⟨line, member, imports⟩ :=
      exists_line_of_starts before importWord after starts (by decide)
    have none := plain line member
    rw [isImportLine, List.isPrefixOf_iff_prefix.mpr imports] at none
    cases none

/-- Whether what a rule finds can overlap a word only by having all of it. -/
def staysWhole (word : Text) : Bool :=
  (!word.contains ';' && (word.tails.filter fun part => !part.isEmpty).all extractionOpening.rejects)
    && [cookieHeaders, jsonHeaders, cookieField].all fun shape => shape.avoids word

theorem apart_of_extraction (word segment : Text) (whole : staysWhole word = true)
    (spelled : cookieExtraction.Spells segment) (absent : ¬ word <:+: segment) :
    Apart word segment := by
  simp only [staysWhole, Bool.and_eq_true, Bool.not_eq_true', List.all_eq_true, List.mem_filter,
    List.mem_tails, List.isEmpty_eq_false_iff] at whole
  obtain ⟨⟨unended, rejected⟩, -⟩ := whole
  rw [cookieExtraction_eq, Shape.spells_append] at spelled
  obtain ⟨opening, _, rfl, openingSpelled, _, _, rfl, ⟨lead, rfl, -⟩, rfl⟩ := spelled
  constructor
  · intro before inside after rest cut filled same
    rcases List.prefix_or_prefix_of_prefix (List.prefix_append word after)
      (same ▸ List.prefix_append inside rest) with within | ⟨more, rfl⟩
    · exact absurd (within.isInfix.trans ⟨before, [], by rw [cut, List.append_nil]⟩) absent
    · -- What ends the statement would stand in the word.
      have ends : inside.getLast? = some ';' := by
        rw [← List.getLast?_append_of_ne_nil before filled, ← cut]
        simp
      have member := List.mem_of_getLast? ends
      simp [member] at unended
  · intro read ahead after rest cut filled same
    have measured := extractionOpening.width?_of_spells (by decide) opening
      (lead ++ [';'] ++ [] ++ rest) openingSpelled
    rw [← List.append_assoc, same,
      Shape.width?_of_rejects _ _ _ (rejected ahead ⟨⟨read, cut.symm⟩, filled⟩)] at measured
    cases measured

theorem apart_of_found (word : Text) (whole : staysWhole word = true) (rule : Rule) (segment : Text)
    (spelled : rule.shape.Spells segment)
    (unread : rule = .cookieExtraction → ¬ word <:+: segment) : Apart word segment := by
  by_cases reads : rule = .cookieExtraction
  · subst reads
    exact apart_of_extraction word segment whole spelled (unread rfl)
  · apply Shape.apart_of_avoided rule.shape
    · exact fun rest => rule.shape.width?_of_spells (firm_shape rule reads) segment rest spelled
    · simp only [staysWhole, Bool.and_eq_true, List.all_eq_true] at whole
      apply whole.2
      cases rule with
      | cookieExtraction => exact absurd rfl reads
      | cookieHeaders | jsonHeaders | cookieField => simp [Rule.shape]

namespace Script

variable {content : Text} {script : Script}

/-- The statement that read the cookie went with the word in it. -/
def TakesOut (word : Text) (script : Script) : Prop :=
  ∃ segment, .replaced .cookieExtraction segment ∈ script ∧ word <:+: segment

/-- Fields were removed inside the line that an import goes after, or before its first word. -/
def JoinsAnchor (script : Script) : Prop :=
  ∃ first middle last : Script, script = first ++ (middle ++ last) ∧
    (∃ segment, .replaced .cookieField segment ∈ middle) ∧
    (textAfter 5 middle = frameworkImportLine ∨
      textAfter 5 middle = importWord ∧ StartsLine (textAfter 5 first))

theorem eq_kept_of_lone (script : Script) (recognised : ∀ edit ∈ script, edit.Recognised)
    (unimported : ∀ before after, Edit.imported before after ∉ script)
    (lone : ∀ edit ∈ script, edit.Lone 0) : script = (textAfter 0 script).map .kept := by
  induction script with
  | nil => rfl
  | cons edit script ih =>
    have rest := ih (fun other member => recognised other (List.mem_cons_of_mem _ member))
      (fun before after member => unimported before after (List.mem_cons_of_mem _ member))
      (fun other member => lone other (List.mem_cons_of_mem _ member))
    rw [textAfter_cons, List.map_append, ← rest]
    cases edit with
    | kept c => rfl
    | imported before after => exact absurd (List.mem_cons_self ..) (unimported before after)
    | replaced rule segment =>
      have spelled : rule.shape.Spells segment := recognised (.replaced rule segment) (by simp)
      obtain ⟨c, part, rfl, -⟩ := rule.shape.exists_filled segment (opensFilled_shape rule) spelled
      have several := rule.one_lt_step
      have unapplied : ¬ rule.step ≤ 0 := by omega
      rcases lone (.replaced rule (c :: part)) (by simp) with ⟨kept, same⟩ | empty
      · cases same
      · simp [Edit.textAfter, unapplied] at empty

theorem infix_or_takesOut (retraces : Retraces 5 content script)
    (unimported : ∀ before after, Edit.imported before after ∉ script) (word : Text)
    (filled : word ≠ []) (whole : staysWhole word = true) (present : word <:+: content) :
    word <:+: textAfter 5 script ∨ script.TakesOut word := by
  by_cases taken : script.TakesOut word
  · exact .inr taken
  left
  obtain ⟨before, after, spelled⟩ := present
  rw [List.append_assoc, ← retraces.source] at spelled
  cases word with
  | nil => exact absurd rfl filled
  | cons c part =>
    have clear : ∀ edit ∈ script, edit.Lone 0 ∨ Apart (c :: part) (edit.textAfter 0) := by
      intro edit member
      cases edit with
      | kept c => exact .inl (.inl ⟨c, rfl⟩)
      | imported before after => exact absurd member (unimported before after)
      | replaced rule segment =>
        have several := rule.one_lt_step
        have unapplied : ¬ rule.step ≤ 0 := by omega
        simp only [Edit.textAfter, unapplied, if_false]
        refine .inr (apart_of_found (c :: part) whole rule segment
          (retraces.recognised _ member) ?_)
        rintro rfl inSegment
        exact taken ⟨segment, member, inSegment⟩
    obtain ⟨first, middle, last, rfl, -, middleText, -, lone, -⟩ :=
      exists_lone 0 part c script clear before after spelled.symm
    have kept := eq_kept_of_lone middle
      (fun edit member => retraces.recognised edit (by simp [member]))
      (fun before after member => unimported before after (by simp [member])) lone
    refine ⟨textAfter 5 first, textAfter 5 last, ?_⟩
    rw [kept, textAfter_append, List.cons_append, textAfter_cons, textAfter_append, textAfter_kept,
      middleText]
    simp [Edit.textAfter]

theorem textAfter_one_of_unimported (script : Script)
    (unimported : ∀ before after, Edit.imported before after ∉ script) :
    textAfter 1 script = textAfter 0 script := by
  induction script with
  | nil => rfl
  | cons edit script ih =>
    rw [textAfter_cons, textAfter_cons,
      ih fun before after member => unimported before after (List.mem_cons_of_mem _ member)]
    cases edit with
    | kept c => rfl
    | imported before after => exact absurd (List.mem_cons_self ..) (unimported before after)
    | replaced rule segment =>
      have several := rule.one_lt_step
      have unapplied : ¬ rule.step ≤ 1 ∧ ¬ rule.step ≤ 0 := by omega
      simp [Edit.textAfter, unapplied]

theorem startsLine_or_removed (first : Script)
    (unimported : ∀ before after, Edit.imported before after ∉ first)
    (starts : StartsLine (textAfter 5 first)) : StartsLine (textAfter 0 first) ∨
      ∃ others segment, first = others ++ [.replaced .cookieField segment] := by
  rcases List.eq_nil_or_concat first with rfl | ⟨others, edit, rfl⟩
  · exact .inl (.inl rfl)
  rw [List.concat_eq_append] at unimported starts ⊢
  rw [textAfter_append] at starts ⊢
  cases edit with
  | kept c =>
    have final : c = '\n' := by
      rcases starts with none | ends
      · simp [textAfter, Edit.textAfter] at none
      · simpa [textAfter, Edit.textAfter] using ends
    exact .inl (.inr (by simp [textAfter, Edit.textAfter, final]))
  | imported before after => exact absurd (by simp) (unimported before after)
  | replaced rule segment =>
    by_cases field : rule = .cookieField
    · subst field
      exact .inr ⟨others, segment, rfl⟩
    · have level : rule.replacement ≠ [] ∧ rule.replacement.getLast? ≠ some '\n' := by
        cases rule with
        | cookieField => exact absurd rfl field
        | cookieExtraction | cookieHeaders | jsonHeaders => decide +kernel
      have last : textAfter 5 [.replaced rule segment] = rule.replacement := by
        simp [textAfter, Edit.textAfter, rule.step_le_five]
      rw [last] at starts
      rcases starts with none | ends
      · exact absurd (List.append_eq_nil_iff.mp none).2 level.1
      · rw [List.getLast?_append_of_ne_nil _ level.1] at ends
        exact absurd ends level.2

theorem exists_kept_or_removed (script : Script)
    (unimported : ∀ before after, Edit.imported before after ∉ script) (word : Text)
    (filled : word ≠ []) (clear : staysClear word = true) (before after : Text)
    (spelled : textAfter 5 script = before ++ (word ++ after)) :
    ∃ first middle last : Script, script = first ++ (middle ++ last) ∧
      textAfter 5 first = before ∧ textAfter 5 middle = word ∧
      (middle = word.map .kept ∨ ∃ segment, .replaced .cookieField segment ∈ middle) := by
  cases word with
  | nil => exact absurd rfl filled
  | cons c part =>
    have own : ∀ edit ∈ script, edit.Own ∨ edit.ClearOf (c :: part) := by
      intro edit member
      apply own_or_clearOf (c :: part) clear
      rintro before after rfl
      exact absurd member (unimported before after)
    obtain ⟨first, middle, last, cut, firstText, middleText, -, owned⟩ :=
      exists_own part c script own before after spelled
    refine ⟨first, .kept c :: middle, last, cut, firstText, ?_, ?_⟩
    · rw [textAfter_cons, middleText]
      rfl
    · by_cases removed : ∃ segment, Edit.replaced .cookieField segment ∈ middle
      · obtain ⟨segment, member⟩ := removed
        exact .inr ⟨segment, List.mem_cons_of_mem _ member⟩
      · have kept := eq_kept middle owned fun segment member => removed ⟨segment, member⟩
        rw [middleText] at kept
        exact .inl (by rw [kept]; rfl)

theorem anchored_of_rewritten (retraces : Retraces 5 content script)
    (unimported : ∀ before after, Edit.imported before after ∉ script)
    (anchored : Anchored (textAfter 5 script)) :
    Anchored content ∨ script.TakesOut frameworkImportPrefix ∨ script.JoinsAnchor := by
  by_cases framework : Text.holds frameworkImportPrefix (textAfter 5 script) = true
  · simp only [Anchored, framework, if_true] at anchored
    obtain ⟨before, after, spelled⟩ := anchored
    rw [List.append_assoc] at spelled
    obtain ⟨first, middle, last, cut, -, middleText, kept | removed⟩ :=
      exists_kept_or_removed script unimported frameworkImportLine (by decide) (by decide +kernel)
        before after spelled.symm
    · left
      have line : frameworkImportLine <:+: content :=
        ⟨textAfter 0 first, textAfter 0 last, by
          rw [← retraces.source, cut, kept, textAfter_append, textAfter_append, textAfter_kept,
            List.append_assoc]⟩
      have opening : frameworkImportPrefix <:+: frameworkImportLine := by decide +kernel
      simpa [Anchored, (Text.holds_iff _ _).mpr (opening.trans line)] using line
    · exact .inr (.inr ⟨first, middle, last, cut, removed, .inl middleText⟩)
  · simp only [Anchored, framework, Bool.false_eq_true, if_false] at anchored
    obtain ⟨before, after, starts, spelled⟩ := anchored
    obtain ⟨first, middle, last, cut, firstText, middleText, kept | removed⟩ :=
      exists_kept_or_removed script unimported importWord (by decide) (by decide +kernel) before
        after spelled
    · rw [← firstText] at starts
      rcases startsLine_or_removed first (fun before after member =>
          unimported before after (by simp [cut, member])) starts with opens | ⟨others, segment, rfl⟩
      · by_cases hidden : Text.holds frameworkImportPrefix content = true
        · rcases infix_or_takesOut retraces unimported frameworkImportPrefix (by decide)
            (by decide +kernel) ((Text.holds_iff _ _).mp hidden) with still | taken
          · exact absurd ((Text.holds_iff _ _).mpr still) framework
          · exact .inr (.inl taken)
        · left
          simp only [Anchored, hidden, Bool.false_eq_true, if_false]
          refine ⟨textAfter 0 first, textAfter 0 last, opens, ?_⟩
          rw [← retraces.source, cut, kept, textAfter_append, textAfter_append, textAfter_kept]
      · refine .inr (.inr ⟨others, .replaced .cookieField segment :: middle, last, by simp [cut],
          ⟨segment, by simp⟩, .inr ⟨?_, ?_⟩⟩)
        · rw [textAfter_cons, middleText]
          rfl
        · rw [textAfter_append] at starts
          simpa [textAfter, Edit.textAfter, Rule.step, Rule.replacement] using starts
    · exact .inr (.inr ⟨first, middle, last, cut, removed, .inr ⟨middleText, firstText ▸ starts⟩⟩)

theorem import_settled (retraces : Retraces 5 content script)
    (again : injectImport (textAfter 5 script) ≠ textAfter 5 script) :
    script.TakesOut helperImportSource ∨ script.TakesOut frameworkImportPrefix ∨
      script.JoinsAnchor := by
  have unsourced : ¬ helperImportSource <:+: textAfter 5 script := by
    intro sourced
    simp [injectImport, (Text.holds_iff _ _).mpr sourced] at again
  have unimported : ∀ before after, Edit.imported before after ∉ script :=
    fun before after member =>
      unsourced (source_infix_line.trans (line_of_imported script before after member))
  have unchanged : injectImport content = content := by
    rw [← retraces.imported, textAfter_one_of_unimported script unimported, retraces.source]
  have anchored : Anchored (textAfter 5 script) := by
    by_contra free
    exact again (injectImport_of_not_anchored _ free)
  rcases anchored_of_rewritten retraces unimported anchored with original | elsewhere
  · have sourced := source_injectImport content original
    rw [unchanged] at sourced
    rcases infix_or_takesOut retraces unimported helperImportSource (by decide) (by decide +kernel)
      sourced with still | taken
    · exact absurd still unsourced
    · exact .inl taken
  · exact .inr elsewhere

end Script

end Route

end RouteMigration
