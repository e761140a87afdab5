import RouteMigration.Proofs.Route.EditScript
import RouteMigration.Proofs.Text.Joining

set_option autoImplicit false

namespace RouteMigration

theorem exists_join_inserted {A : Type} (mark : A) (before : List (List A))
    (first inserted : List A) (later : List (List A)) : ∃ head tail : List A,
      join mark (before ++ first :: later) = head ++ tail ∧
      join mark (before ++ first :: inserted :: later) = head ++ (mark :: inserted ++ tail) := by
  refine ⟨before.flatMap (· ++ [mark]) ++ first, later.flatMap (mark :: ·), ?_, ?_⟩
  · rw [join_around, List.append_assoc]
  · simp [join_around]

namespace Route

theorem source_infix_line : helperImportSource <:+: helperImportLine := by
  decide +kernel

theorem source_infix_importLineFor (content : Text) :
    helperImportSource <:+: importLineFor content := by
  unfold importLineFor
  split
  next => exact source_infix_line.trans (List.prefix_append _ _).isInfix
  next => exact source_infix_line

inductive Placement (content : Text) : Text → Prop where
  | present (sourced : helperImportSource <:+: content) : Placement content content
  | framework (unsourced : ¬ helperImportSource <:+: content)
      (anchored : frameworkImportPrefix <:+: content) :
      Placement content (afterFrameworkImport content)
  | afterLine (unsourced : ¬ helperImportSource <:+: content)
      (unanchored : ¬ frameworkImportPrefix <:+: content) (before : List Text) (first : Text)
      (later : List Text) (lines : split '\n' content = before ++ first :: later)
      (plain : ∀ line ∈ before, isImportLine line = false) (imports : isImportLine first = true) :
      Placement content (join '\n' (before ++ first :: importLineFor content :: later))
  | nowhere (unsourced : ¬ helperImportSource <:+: content)
      (unanchored : ¬ frameworkImportPrefix <:+: content)
      (plain : ∀ line ∈ split '\n' content, isImportLine line = false) : Placement content content

theorem injectImport_placed (content : Text) : Placement content (injectImport content) := by
  unfold injectImport
  split
  next sourced => exact .present ((Text.holds_iff _ _).mp sourced)
  next unsourced =>
    rw [Text.holds_iff] at unsourced
    split
    next anchored => exact .framework unsourced ((Text.holds_iff _ _).mp anchored)
    next unanchored =>
      rw [Text.holds_iff] at unanchored
      have lines := List.takeWhile_append_dropWhile (p := fun line => !isImportLine line)
        (l := split '\n' content)
      have plain : ∀ line ∈ (split '\n' content).takeWhile (fun line => !isImportLine line),
          isImportLine line = false := by
        intro line member
        simpa using List.all_eq_true.mp List.all_takeWhile line member
      have imports := List.head?_dropWhile_not (fun line => !isImportLine line) (split '\n' content)
      simp only [afterFirstImport, List.span_eq_takeWhile_dropWhile]
      cases rest : (split '\n' content).dropWhile (fun line => !isImportLine line) with
      | nil =>
        rw [rest, List.append_nil] at lines
        rw [lines] at plain ⊢
        rw [join_split]
        exact .nowhere unsourced unanchored plain
      | cons first later =>
        rw [rest] at lines imports
        exact .afterLine unsourced unanchored _ first later lines.symm plain (by simpa using imports)

namespace Script

structure Imports (content : Text) (script : Script) : Prop where
  source : textAfter 0 script = content
  imported : textAfter 1 script = injectImport content
  -- No rule has been applied yet.
  within : ∀ edit ∈ script, edit.Within 1

theorem within_kept (steps : Nat) (text : Text) :
    ∀ edit ∈ text.map Edit.kept, edit.Within steps := by
  intro edit member
  obtain ⟨c, -, rfl⟩ := List.mem_map.mp member
  trivial

theorem imports_nothing (content : Text) (same : injectImport content = content) :
    Imports content (content.map .kept) where
  source := textAfter_kept 0 content
  imported := by rw [textAfter_kept, same]
  within := within_kept 1 content

def importedAfter (ending : Text) : Segment → Script
  | .kept c => [.kept c]
  | .found occurrence => occurrence.map .kept ++ [.imported ending []]

theorem textAfter_importedAfter (ending : Text) (segments : List Segment) :
    textAfter 0 (segments.flatMap (importedAfter ending)) = segments.flatMap Segment.source := by
  induction segments with
  | nil => rfl
  | cons segment later ih =>
    rw [List.flatMap_cons, textAfter_append, ih, List.flatMap_cons]
    cases segment with
    | kept c => rfl
    | found occurrence =>
      simp only [importedAfter, textAfter_append, textAfter_kept]
      simp [textAfter, Edit.textAfter, Segment.source]

theorem textAfter_one_importedAfter (ending line : Text) (segments : List Segment)
    (spelled : ∀ occurrence, .found occurrence ∈ segments → occurrence = line) :
    textAfter 1 (segments.flatMap (importedAfter ending)) =
      segments.flatMap (Segment.rewritten (line ++ ending ++ helperImportLine)) := by
  induction segments with
  | nil => rfl
  | cons segment later ih =>
    rw [List.flatMap_cons, textAfter_append, List.flatMap_cons,
      ih fun occurrence member => spelled occurrence (List.mem_cons_of_mem _ member)]
    cases segment with
    | kept c => rfl
    | found occurrence =>
      have same : occurrence = line := spelled occurrence (by simp)
      simp only [importedAfter, textAfter_append, textAfter_kept, same]
      simp [textAfter, Edit.textAfter, Segment.rewritten]

theorem lineBreak_form (content : Text) : (lineBreak content, []) ∈ Edit.importForms := by
  unfold lineBreak
  split <;> simp [Edit.importForms]

theorem imports_framework (content : Text)
    (placed : injectImport content = afterFrameworkImport content) :
    Imports content ((Shape.segments [.literal frameworkImportLine] content).flatMap
      (importedAfter (lineBreak content))) where
  source := by rw [textAfter_importedAfter, Shape.source_segments]
  imported := by
    rw [placed, textAfter_one_importedAfter (lineBreak content) frameworkImportLine]
    · rfl
    · intro occurrence member
      have spelled := Shape.spells_of_found _ content occurrence member
      simpa [Shape.Spells, Piece.Spells] using spelled
  within := by
    intro edit member
    obtain ⟨segment, -, member⟩ := List.mem_flatMap.mp member
    cases segment with
    | kept c => simp_all [importedAfter, Edit.Within]
    | found occurrence =>
      rcases List.mem_append.mp member with kept | added
      · exact within_kept 1 occurrence edit kept
      · rw [List.mem_singleton.mp added]
        exact lineBreak_form content

theorem imports_line (content head tail ending : Text) (source : content = head ++ tail)
    (form : (['\n'], ending) ∈ Edit.importForms)
    (placed : injectImport content = head ++ ('\n' :: (helperImportLine ++ ending) ++ tail)) :
    Imports content (head.map .kept ++ .imported ['\n'] ending :: tail.map .kept) where
  source := by
    rw [textAfter_append, textAfter_cons, textAfter_kept, textAfter_kept, source]
    rfl
  imported := by
    rw [textAfter_append, textAfter_cons, textAfter_kept, textAfter_kept, placed]
    simp [Edit.textAfter]
  within := by
    intro edit member
    rcases List.mem_append.mp member with kept | later
    · exact within_kept 1 head edit kept
    · rcases List.mem_cons.mp later with rfl | kept
      · exact form
      · exact within_kept 1 tail edit kept

theorem exists_ending (content : Text) : ∃ ending : Text,
    importLineFor content = helperImportLine ++ ending ∧ (['\n'], ending) ∈ Edit.importForms := by
  unfold importLineFor
  split
  · exact ⟨['\r'], rfl, by simp [Edit.importForms]⟩
  · exact ⟨[], by simp, by simp [Edit.importForms]⟩

theorem exists_imports (content : Text) : ∃ script : Script, Imports content script := by
  have placed := injectImport_placed content
  generalize same : injectImport content = result at placed
  cases placed with
  | present => exact ⟨_, imports_nothing content same⟩
  | framework => exact ⟨_, imports_framework content same⟩
  | nowhere => exact ⟨_, imports_nothing content same⟩
  | afterLine unsourced unanchored before first later lines =>
    obtain ⟨ending, line, form⟩ := exists_ending content
    obtain ⟨head, tail, source, joined⟩ := exists_join_inserted '\n' before first
      (importLineFor content) later
    rw [← lines, join_split] at source
    rw [joined, line] at same
    exact ⟨_, imports_line content head tail ending source form same⟩

end Script

end Route

end RouteMigration
