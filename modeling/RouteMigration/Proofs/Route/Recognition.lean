import RouteMigration.Proofs.Route.ImportScript
import RouteMigration.Route.Eligibility

set_option autoImplicit false

namespace RouteMigration

namespace Route

namespace Script

structure Retraces (steps : Nat) (content : Text) (script : Script) : Prop where
  source : textAfter 0 script = content
  imported : textAfter 1 script = injectImport content
  recognised : ∀ edit ∈ script, edit.Recognised
  within : ∀ edit ∈ script, edit.Within steps
  scanned : ∀ rule : Rule, rule.step ≤ steps →
    rule.shape.segments (textAfter (rule.step - 1) script) = script.flatMap (Edit.scannedBy rule)

theorem recognised_of_within (edit : Edit) (within : edit.Within 1) : edit.Recognised := by
  cases edit with
  | kept c => trivial
  | imported before after =>
    simp only [Edit.Within, Edit.importForms, carriageReturnLineFeed, List.mem_cons,
      List.not_mem_nil, or_false, Prod.mk.injEq] at within
    rcases within with ⟨rfl, rfl⟩ | ⟨rfl, rfl⟩ | ⟨rfl, rfl⟩ <;> simp [Edit.Recognised]
  | replaced rule segment =>
    have applied : rule.step ≤ 1 := within
    have several := rule.one_lt_step
    omega

theorem exists_retraces_imports (content : Text) :
    ∃ script : Script, Retraces 1 content script := by
  obtain ⟨script, imports⟩ := exists_imports content
  refine ⟨script, imports.source, imports.imported, ?_, imports.within, ?_⟩
  · exact fun edit member => recognised_of_within edit (imports.within edit member)
  · intro rule applied
    have several := rule.one_lt_step
    omega

theorem flatMap_restored {A : Type} (rule : Rule) (read : Edit → List A)
    (readThrough : ∀ segment : Text,
      read (.replaced rule segment) = (segment.map Edit.kept).flatMap read) (script : Script) :
    (script.flatMap (Edit.restored rule)).flatMap read = script.flatMap read := by
  induction script with
  | nil => rfl
  | cons edit rest ih =>
    have same : (edit.restored rule).flatMap read = read edit := by
      cases edit with
      | kept c => simp [Edit.restored]
      | imported before after => simp [Edit.restored]
      | replaced used segment =>
        by_cases own : used = rule
        · subst own
          simp [Edit.restored, readThrough]
        · simp [Edit.restored, own]
    rw [List.flatMap_cons, List.flatMap_append, ih, same, List.flatMap_cons]

theorem Scans.textAfter {rule : Rule} {script next : Script} (scans : Scans rule script next)
    (steps : Nat) (earlier : steps < rule.step) :
    textAfter steps next = textAfter steps script := by
  rw [← scans.restored]
  refine (flatMap_restored rule (Edit.textAfter steps) ?_ next).symm
  intro segment
  have unapplied : ¬ rule.step ≤ steps := by omega
  simp only [Edit.textAfter, unapplied, if_false]
  exact (textAfter_kept steps segment).symm

theorem Scans.scannedBy {rule : Rule} {script next : Script} (scans : Scans rule script next)
    (other : Rule) (earlier : other.step < rule.step) :
    next.flatMap (Edit.scannedBy other) = script.flatMap (Edit.scannedBy other) := by
  rw [← scans.restored]
  refine (flatMap_restored rule (Edit.scannedBy other) ?_ next).symm
  intro segment
  have different : rule ≠ other := by
    rintro rfl
    omega
  have unapplied : ¬ rule.step ≤ other.step - 1 := by omega
  simp only [Edit.scannedBy, Edit.textAfter, different, unapplied, if_false, List.flatMap_map]
  exact List.map_eq_flatMap

theorem Retraces.next (rule : Rule) (content : Text) (script : Script)
    (retraces : Retraces (rule.step - 1) content script) :
    ∃ next : Script, Retraces rule.step content next := by
  obtain ⟨next, scans⟩ := exists_scans rule script retraces.within
  have several := rule.one_lt_step
  refine ⟨next, ?_, ?_, ?_, ?_, ?_⟩
  · rw [scans.textAfter 0 (by omega), retraces.source]
  · rw [scans.textAfter 1 several, retraces.imported]
  · intro edit member
    rcases scans.edits edit member with earlier | ⟨segment, rfl, spelled⟩
    · exact retraces.recognised edit earlier
    · exact spelled
  · intro edit member
    rcases scans.edits edit member with earlier | ⟨segment, rfl, -⟩
    · exact (retraces.within edit earlier).mono (Nat.sub_le _ _)
    · exact Nat.le_refl _
  · intro other applied
    by_cases same : other = rule
    · subst same
      rw [scans.textAfter _ (by omega), scans.segments]
    · have different : other.step ≠ rule.step := fun equal => same (Rule.step_inj equal)
      have earlier : other.step < rule.step := by omega
      rw [scans.textAfter _ (by omega), scans.scannedBy other earlier]
      exact retraces.scanned other (by omega)

theorem exists_retraces (content : Text) : ∃ script : Script, Retraces 5 content script := by
  obtain ⟨_, imports⟩ := exists_retraces_imports content
  obtain ⟨_, extraction⟩ := Retraces.next .cookieExtraction content _ imports
  obtain ⟨_, cookies⟩ := Retraces.next .cookieHeaders content _ extraction
  obtain ⟨_, headers⟩ := Retraces.next .jsonHeaders content _ cookies
  exact Retraces.next .cookieField content _ headers

theorem rewritten_scannedBy (rule : Rule) (edit : Edit) :
    (edit.scannedBy rule).flatMap (Segment.rewritten rule.replacement) =
      edit.textAfter rule.step := by
  have several := rule.one_lt_step
  cases edit with
  | kept c => exact Segment.rewritten_kept rule.replacement [c]
  | imported before after =>
    have added : 1 ≤ rule.step - 1 := by omega
    have still : 1 ≤ rule.step := by omega
    simp only [Edit.scannedBy, Segment.rewritten_kept, Edit.textAfter, added, still, if_true]
  | replaced used segment =>
    by_cases own : used = rule
    · subst own
      simp [Edit.scannedBy, Segment.rewritten, Edit.textAfter]
    · have different : used.step ≠ rule.step := fun equal => own (Rule.step_inj equal)
      have same : used.step ≤ rule.step - 1 ↔ used.step ≤ rule.step := by omega
      simp only [Edit.scannedBy, own, if_false, Segment.rewritten_kept, Edit.textAfter, same]

theorem Retraces.replaced {content : Text} {script : Script} (retraces : Retraces 5 content script)
    (rule : Rule) : textAfter rule.step script =
      rule.shape.replaceAll rule.replacement (textAfter (rule.step - 1) script) := by
  rw [Shape.replaceAll, retraces.scanned rule rule.step_le_five, List.flatMap_assoc]
  simp only [rewritten_scannedBy]
  rfl

theorem Retraces.stripped {content : Text} {script : Script}
    (retraces : Retraces 5 content script) :
    textAfter 5 script = stripCookieFields (textAfter 4 script) :=
  retraces.replaced .cookieField

theorem Retraces.rewritten {content : Text} {script : Script}
    (retraces : Retraces 5 content script) :
    textAfter 5 script = rewritten content := by
  have extraction : textAfter 2 script = stripCookieExtraction (textAfter 1 script) :=
    retraces.replaced .cookieExtraction
  have cookies : textAfter 3 script = replaceCookieHeaders (textAfter 2 script) :=
    retraces.replaced .cookieHeaders
  have headers : textAfter 4 script = replaceJsonHeaders (textAfter 3 script) :=
    retraces.replaced .jsonHeaders
  rw [retraces.stripped, headers, cookies, extraction, retraces.imported]
  rfl

end Script

theorem rewrite?_recognised (content result : Text) (changed : rewrite? content = some result) :
    ∃ script : Script,
      (∀ edit ∈ script, edit.Recognised) ∧
      script.textAfter 0 = content ∧
      script.textAfter 1 = injectImport content ∧
      (∀ rule : Rule, script.textAfter rule.step =
        rule.shape.replaceAll rule.replacement (script.textAfter (rule.step - 1))) ∧
      (∀ rule : Rule, rule.shape.segments (script.textAfter (rule.step - 1)) =
        script.flatMap (Edit.scannedBy rule)) ∧
      script.textAfter 5 = result := by
  obtain ⟨script, retraces⟩ := Script.exists_retraces content
  obtain ⟨same, -⟩ := (rewrite?_eq_some_iff content result).mp changed
  refine ⟨script, retraces.recognised, retraces.source, retraces.imported, retraces.replaced,
    ?_, ?_⟩
  · exact fun rule => retraces.scanned rule rule.step_le_five
  · rw [retraces.rewritten, same]

def forwardingRoute : Text :=
  ("import x\nconst cookieHeader = request.headers.get('cookie');\n" ++
    "fetch(u, \x7b headers: \x7b A: b, Cookie: cookieHeader \x7d \x7d);\n").toList

def helperRoute : Text :=
  ("import x\nimport \x7b buildBFFHeaders \x7d from \"@/lib/bffHelpers\";\n" ++
    "// Headers now built with buildBFFHeaders() including subdomain\n" ++
    "fetch(u, \x7b headers: \x7b A: b \x7d \x7d);\n").toList

theorem rewrite?_forwardingRoute : rewrite? forwardingRoute = some helperRoute ∧
    ∃ script : Script, (∀ edit ∈ script, edit.Recognised) ∧
      script.textAfter 0 = forwardingRoute ∧ script.textAfter 5 = helperRoute := by
  have changed : rewrite? forwardingRoute = some helperRoute := by decide +kernel
  obtain ⟨script, recognised, source, -, -, -, result⟩ :=
    rewrite?_recognised forwardingRoute helperRoute changed
  exact ⟨changed, script, recognised, source, result⟩

theorem helperMarker_replacement (rule : Rule) (marks : rule ≠ .cookieField) :
    helperMarker <:+: rule.replacement := by
  cases rule with
  | cookieField => exact absurd rfl marks
  | cookieExtraction | cookieHeaders | jsonHeaders => decide +kernel

theorem helperMarker_edit (edit : Edit) : helperMarker <:+: edit.textAfter 5 ∨
    edit.textAfter 4 = edit.textAfter 0 := by
  cases edit with
  | kept c => exact .inr rfl
  | imported before after =>
    have inLine : helperMarker <:+: helperImportLine := by decide +kernel
    exact .inl (inLine.trans ⟨before, after, rfl⟩)
  | replaced rule segment =>
    by_cases last : rule = .cookieField
    · subst last
      exact .inr rfl
    · simp only [Edit.textAfter, rule.step_le_five, if_true]
      exact .inl (helperMarker_replacement rule last)

theorem helperMarker_script (script : Script) : helperMarker <:+: script.textAfter 5 ∨
    script.textAfter 4 = script.textAfter 0 := by
  induction script with
  | nil => exact .inr rfl
  | cons edit rest ih =>
    simp only [Script.textAfter_cons]
    rcases helperMarker_edit edit with here | same
    · exact .inl (here.trans (List.prefix_append _ _).isInfix)
    · rcases ih with later | unchanged
      · exact .inl (later.trans (List.suffix_append _ _).isInfix)
      · exact .inr (by rw [same, unchanged])

theorem marked_or_stripped (content : Text) : Text.holds helperMarker (rewritten content) = true ∨
    rewritten content = stripCookieFields content := by
  obtain ⟨script, retraces⟩ := Script.exists_retraces content
  rw [← retraces.rewritten, Text.holds_iff]
  refine (helperMarker_script script).imp_right ?_
  intro unchanged
  rw [retraces.stripped, unchanged, retraces.source]

end Route

end RouteMigration
