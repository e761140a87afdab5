import RouteMigration.Proofs.Shape.Avoidance
import RouteMigration.Route.Rewriting
/-!
Rewriting as an edit script. A step may look at text that an earlier step has put there, but no
occurrence touches it (`exists_scans`); so one script serves all five steps.
-/
set_option autoImplicit false

namespace RouteMigration

namespace Route

inductive Rule where
  | cookieExtraction
  | cookieHeaders
  | jsonHeaders
  | cookieField
  deriving DecidableEq

namespace Rule

def step : Rule → Nat
  | .cookieExtraction => 2
  | .cookieHeaders => 3
  | .jsonHeaders => 4
  | .cookieField => 5

theorem one_lt_step (rule : Rule) : 1 < rule.step := by
  cases rule <;> decide

theorem step_le_five (rule : Rule) : rule.step ≤ 5 := by
  cases rule <;> decide

theorem step_inj {first second : Rule} (same : first.step = second.step) : first = second := by
  cases first <;> cases second <;> first | rfl | simp [step] at same

def shape : Rule → Shape
  | .cookieExtraction => Route.cookieExtraction
  | .cookieHeaders => Route.cookieHeaders
  | .jsonHeaders => Route.jsonHeaders
  | .cookieField => Route.cookieField

def replacement : Rule → Text
  | .cookieExtraction => extractionMarker
  | .cookieHeaders => helperCall
  | .jsonHeaders => helperCall
  | .cookieField => []

end Rule

inductive Edit where
  | kept (c : Char)
  | imported (before after : Text)
  | replaced (rule : Rule) (segment : Text)

abbrev Script := List Edit

namespace Edit

def textAfter (steps : Nat) : Edit → Text
  | .kept c => [c]
  | .imported before after => if 1 ≤ steps then before ++ helperImportLine ++ after else []
  | .replaced rule segment => if rule.step ≤ steps then rule.replacement else segment

/-- An import is set off by line ends only, and a replaced segment has the shape of its rule. -/
def Recognised : Edit → Prop
  | .kept _ => True
  | .imported before after => ∀ c ∈ before ++ after, c = '\r' ∨ c = '\n'
  | .replaced rule segment => rule.shape.Spells segment

/-- An edit as the scan of a rule sees it: the rule's own segments are what it finds. -/
def scannedBy (rule : Rule) : Edit → List Segment
  | .replaced used segment =>
    if used = rule then [.found segment]
    else ((Edit.replaced used segment).textAfter (rule.step - 1)).map .kept
  | edit => (edit.textAfter (rule.step - 1)).map .kept

def restored (rule : Rule) : Edit → Script
  | .replaced used segment =>
    if used = rule then segment.map .kept else [.replaced used segment]
  | edit => [edit]

def importForms : List (Text × Text) :=
  [(['\n'], []), (carriageReturnLineFeed, []), (['\n'], ['\r'])]

def Within (steps : Nat) : Edit → Prop
  | .kept _ => True
  | .imported before after => (before, after) ∈ importForms
  | .replaced rule _ => rule.step ≤ steps

theorem Within.mono {edit : Edit} {fewer more : Nat} (within : edit.Within fewer)
    (le : fewer ≤ more) : edit.Within more := by
  cases edit with
  | kept c => trivial
  | imported before after => exact within
  | replaced rule segment => exact Nat.le_trans within le

end Edit

theorem within_other (used rule : Rule) (segment : Text)
    (within : (Edit.replaced used segment).Within (rule.step - 1)) : used ≠ rule := by
  rintro rfl
  have applied : used.step ≤ used.step - 1 := within
  have several := used.one_lt_step
  omega

theorem avoids_import (rule : Rule) (form : Text × Text) (member : form ∈ Edit.importForms) :
    rule.shape.avoids (form.1 ++ helperImportLine ++ form.2) = true := by
  have all : ∀ form ∈ Edit.importForms,
      rule.shape.avoids (form.1 ++ helperImportLine ++ form.2) = true := by
    cases rule <;> decide +kernel
  exact all form member

theorem avoids_replacement (used rule : Rule) (earlier : used.step < rule.step) :
    rule.shape.avoids used.replacement = true := by
  cases used <;> cases rule <;> first | decide +kernel | simp [Rule.step] at earlier

theorem avoids_edit (rule : Rule) (edit : Edit) (within : edit.Within (rule.step - 1))
    (fixed : ∀ c, edit ≠ .kept c) :
    rule.shape.avoids (edit.textAfter (rule.step - 1)) = true := by
  cases edit with
  | kept c => exact absurd rfl (fixed c)
  | imported before after =>
    have added : 1 ≤ rule.step - 1 := Nat.le_sub_one_of_lt rule.one_lt_step
    simp only [Edit.textAfter, added, if_true]
    exact avoids_import rule (before, after) within
  | replaced used segment =>
    have applied : used.step ≤ rule.step - 1 := within
    have several := rule.one_lt_step
    simp only [Edit.textAfter, applied, if_true]
    exact avoids_replacement used rule (by omega)

namespace Script

def textAfter (steps : Nat) (script : Script) : Text :=
  script.flatMap (Edit.textAfter steps)

theorem textAfter_kept (steps : Nat) (text : Text) :
    textAfter steps (text.map .kept) = text := by
  induction text with
  | nil => rfl
  | cons c rest ih => simpa [textAfter, Edit.textAfter] using ih

theorem textAfter_append (steps : Nat) (first second : Script) :
    textAfter steps (first ++ second) = textAfter steps first ++ textAfter steps second := by
  simp [textAfter]

theorem textAfter_cons (steps : Nat) (edit : Edit) (script : Script) :
    textAfter steps (edit :: script) = edit.textAfter steps ++ textAfter steps script := rfl

theorem infix_of_mem (steps : Nat) (script : Script) (edit : Edit) (member : edit ∈ script) :
    edit.textAfter steps <:+: textAfter steps script := by
  obtain ⟨first, last, rfl⟩ := List.append_of_mem member
  rw [textAfter_append, textAfter_cons, ← List.append_assoc]
  exact ⟨_, _, rfl⟩

theorem exists_kept (script : Script) :
    ∃ (chars : Text) (tail : Script), script = chars.map Edit.kept ++ tail ∧
      (tail = [] ∨ ∃ edit later, tail = edit :: later ∧ ∀ c, edit ≠ .kept c) := by
  induction script with
  | nil => exact ⟨[], [], rfl, .inl rfl⟩
  | cons edit rest ih =>
    cases edit with
    | kept c =>
      obtain ⟨chars, tail, rfl, opening⟩ := ih
      exact ⟨c :: chars, tail, rfl, opening⟩
    | imported before after => exact ⟨[], _, rfl, .inr ⟨_, _, rfl, by simp⟩⟩
    | replaced rule segment => exact ⟨[], _, rfl, .inr ⟨_, _, rfl, by simp⟩⟩

theorem kept_of_width? (rule : Rule) (chars : Text) (tail : Script)
    (within : ∀ edit ∈ tail, edit.Within (rule.step - 1))
    (opening : tail = [] ∨ ∃ edit later, tail = edit :: later ∧ ∀ c, edit ≠ .kept c) (width : Nat)
    (measured : rule.shape.width? (chars ++ textAfter (rule.step - 1) tail) = some width) :
    width ≤ chars.length := by
  rcases opening with rfl | ⟨edit, later, rfl, fixed⟩
  · simpa [textAfter] using rule.shape.width?_le _ width measured
  · have avoided := avoids_edit rule edit (within edit (by simp)) fixed
    rw [textAfter_cons] at measured
    exact rule.shape.width?_le_of_avoids _ avoided chars _ width measured

structure Scans (rule : Rule) (script next : Script) : Prop where
  restored : next.flatMap (Edit.restored rule) = script
  segments : rule.shape.segments (textAfter (rule.step - 1) script) =
    next.flatMap (Edit.scannedBy rule)
  edits : ∀ edit ∈ next,
    edit ∈ script ∨ ∃ segment, edit = .replaced rule segment ∧ rule.shape.Spells segment

theorem scans_nil (rule : Rule) : Scans rule [] [] where
  restored := rfl
  segments := rfl
  edits := by simp

theorem scans_kept (rule : Rule) (c : Char) (rest next : Script) (scans : Scans rule rest next)
    (unmatched : ∀ width,
      rule.shape.width? (c :: textAfter (rule.step - 1) rest) ≠ some (width + 1)) :
    Scans rule (.kept c :: rest) (.kept c :: next) where
  restored := by simp [Edit.restored, scans.restored]
  segments := by
    rw [textAfter_cons]
    simp only [Edit.textAfter, List.singleton_append]
    rw [rule.shape.segments_kept c _ unmatched, scans.segments]
    rfl
  edits := by
    intro edit member
    rcases List.mem_cons.mp member with rfl | later
    · exact .inl (by simp)
    · exact (scans.edits edit later).imp_left (List.mem_cons_of_mem _)

theorem scans_fixed (rule : Rule) (edit : Edit) (rest next : Script) (scans : Scans rule rest next)
    (within : edit.Within (rule.step - 1)) (fixed : ∀ c, edit ≠ .kept c) :
    Scans rule (edit :: rest) (edit :: next) where
  restored := by
    have same : edit.restored rule = [edit] := by
      cases edit with
      | kept c => rfl
      | imported before after => rfl
      | replaced used segment =>
        have other := within_other used rule segment within
        simp [Edit.restored, other]
    simp [same, scans.restored]
  segments := by
    have seen : edit.scannedBy rule = (edit.textAfter (rule.step - 1)).map .kept := by
      cases edit with
      | kept c => rfl
      | imported before after => rfl
      | replaced used segment =>
        have other := within_other used rule segment within
        simp [Edit.scannedBy, other]
    rw [textAfter_cons, rule.shape.segments_of_avoids _ (avoids_edit rule edit within fixed),
      scans.segments, List.flatMap_cons, seen]
  edits := by
    intro other member
    rcases List.mem_cons.mp member with rfl | later
    · exact .inl (by simp)
    · exact (scans.edits other later).imp_left (List.mem_cons_of_mem _)

theorem scans_found (rule : Rule) (segment : Text) (rest next : Script)
    (scans : Scans rule rest next) (spelled : rule.shape.Spells segment)
    (found : rule.shape.segments (segment ++ textAfter (rule.step - 1) rest) =
      .found segment :: rule.shape.segments (textAfter (rule.step - 1) rest)) :
    Scans rule (segment.map .kept ++ rest) (.replaced rule segment :: next) where
  restored := by simp [Edit.restored, scans.restored]
  segments := by
    rw [textAfter_append, textAfter_kept, found, scans.segments]
    simp [Edit.scannedBy]
  edits := by
    intro edit member
    rcases List.mem_cons.mp member with rfl | later
    · exact .inr ⟨segment, rfl, spelled⟩
    · exact (scans.edits edit later).imp_left (List.mem_append_right _)

theorem exists_scans (rule : Rule) (script : Script)
    (within : ∀ edit ∈ script, edit.Within (rule.step - 1)) :
    ∃ next : Script, Scans rule script next := by
  induction bound : script.length using Nat.strongRecOn generalizing script with
  | _ size ih =>
    obtain ⟨chars, tail, rfl, opening⟩ := exists_kept script
    cases chars with
    | nil =>
      rcases opening with rfl | ⟨edit, later, rfl, fixed⟩
      · exact ⟨[], scans_nil rule⟩
      · obtain ⟨next, scans⟩ := ih later.length (by simp [← bound]) later
          (fun other member => within other (by simp [member])) rfl
        exact ⟨edit :: next, scans_fixed rule edit later next scans (within edit (by simp)) fixed⟩
    | cons c chars =>
      rcases rule.shape.segments_cons c (chars ++ textAfter (rule.step - 1) tail) with
        ⟨width, measured, step⟩ | ⟨unmatched, -⟩
      · have fits : width + 1 ≤ (c :: chars).length :=
          kept_of_width? rule (c :: chars) tail
            (fun edit member => within edit (List.mem_append_right _ member)) opening _ measured
        have split : (c :: chars).map Edit.kept ++ tail =
            ((c :: chars).take (width + 1)).map Edit.kept ++
              (((c :: chars).drop (width + 1)).map Edit.kept ++ tail) := by
          rw [← List.append_assoc, ← List.map_append, List.take_append_drop]
        have shorter : (((c :: chars).drop (width + 1)).map Edit.kept ++ tail).length < size := by
          simp only [← bound, List.length_append, List.length_map, List.length_drop,
            List.length_cons]
          omega
        obtain ⟨next, scans⟩ := ih _ shorter (((c :: chars).drop (width + 1)).map Edit.kept ++ tail)
          (fun edit member => within edit (by rw [split]; exact List.mem_append_right _ member)) rfl
        have spelled : rule.shape.Spells ((c :: chars).take (width + 1)) := by
          have taken := rule.shape.spells_take _ _ measured
          rwa [← List.cons_append, List.take_append_of_le_length fits] at taken
        have found : rule.shape.segments ((c :: chars).take (width + 1) ++
              textAfter (rule.step - 1) (((c :: chars).drop (width + 1)).map .kept ++ tail)) =
            .found ((c :: chars).take (width + 1)) :: rule.shape.segments
              (textAfter (rule.step - 1) (((c :: chars).drop (width + 1)).map .kept ++ tail)) := by
          rw [textAfter_append, textAfter_kept, ← List.append_assoc, List.take_append_drop,
            List.cons_append, step, ← List.cons_append, List.take_append_of_le_length fits,
            List.drop_append_of_le_length fits]
        rw [split]
        exact ⟨_, scans_found rule _ _ next scans spelled found⟩
      · obtain ⟨next, scans⟩ := ih (chars.map Edit.kept ++ tail).length (by simp [← bound])
          (chars.map Edit.kept ++ tail) (fun other member => within other (by simp_all)) rfl
        have unread : ∀ width, rule.shape.width?
            (c :: textAfter (rule.step - 1) (chars.map Edit.kept ++ tail)) ≠ some (width + 1) := by
          rw [textAfter_append, textAfter_kept]
          exact unmatched
        exact ⟨.kept c :: next, scans_kept rule c _ next scans unread⟩

end Script

end Route

end RouteMigration
