import RouteMigration.Proofs.Route.ImportAnchor

set_option autoImplicit false

namespace RouteMigration

namespace Route

theorem rewritten_of_unspelled (content : Text) (settled : injectImport content = content)
    (unspelled : ∀ (rule : Rule) (before occurrence after : Text), rule.shape.Spells occurrence →
      content ≠ before ++ (occurrence ++ after)) : rewritten content = content := by
  have idle (rule : Rule) : rule.shape.replaceAll rule.replacement content = content :=
    rule.shape.replaceAll_of_unspelled rule.replacement content
      fun before occurrence after _ spelled => unspelled rule before occurrence after spelled
  have extraction : stripCookieExtraction content = content := idle .cookieExtraction
  have cookies : replaceCookieHeaders content = content := idle .cookieHeaders
  have headers : replaceJsonHeaders content = content := idle .jsonHeaders
  have fields : stripCookieFields content = content := idle .cookieField
  rw [rewritten, settled, extraction, cookies, headers, fields]

namespace Script

theorem Crosses.mem {script : Script} {before occurrence after : Text} {edit : Edit}
    (crosses : script.Crosses before occurrence after edit) : edit ∈ script := by
  obtain ⟨first, left, right, last, rfl, -⟩ := crosses
  simp

variable {content : Text} {script : Script}

theorem crosses_gathering (retraces : Retraces 5 content script) (rule : Rule)
    (before occurrence after : Text) (spelled : rule.shape.Spells occurrence)
    (text : textAfter 5 script = before ++ (occurrence ++ after)) :
    ∃ edit, script.Crosses before occurrence after edit ∧ edit.Gathers ∧
      (rule ≠ .cookieExtraction → ∃ segment, edit = .replaced .cookieField segment) := by
  by_cases reads : rule = .cookieExtraction
  · subst reads
    obtain ⟨edit, crosses, gathers⟩ := crosses_of_extraction retraces before occurrence after
      spelled text
    exact ⟨edit, crosses, gathers, fun other => absurd rfl other⟩
  · obtain ⟨segment, crosses⟩ := crosses_of_spelled retraces rule reads before occurrence after
      spelled text
    exact ⟨_, crosses, .inl rfl, fun _ => ⟨segment, rfl⟩⟩

theorem rewrite?_of_ungathered (retraces : Retraces 5 content script)
    (ungathered : ∀ edit ∈ script, ¬ edit.Gathers) (source : ¬ script.TakesOut helperImportSource)
    (framework : ¬ script.TakesOut frameworkImportPrefix) :
    rewrite? (textAfter 5 script) = none := by
  have settled : injectImport (textAfter 5 script) = textAfter 5 script := by
    by_contra again
    rcases import_settled retraces again with taken | taken | joins
    · exact source taken
    · exact framework taken
    · obtain ⟨first, middle, last, rfl, ⟨segment, member⟩, -⟩ := joins
      exact ungathered (.replaced .cookieField segment) (by simp [member]) (.inl rfl)
  have same : Route.rewritten (textAfter 5 script) = textAfter 5 script := by
    apply rewritten_of_unspelled _ settled
    intro rule before occurrence after spelled text
    obtain ⟨edit, crosses, gathers, -⟩ :=
      crosses_gathering retraces rule before occurrence after spelled text
    exact ungathered edit crosses.mem gathers
  simp [rewrite?, same]

end Script

theorem migrated_form (content : Text) :
    ∃ script : Script,
      (∀ edit ∈ script, edit.Recognised) ∧
      script.textAfter 0 = content ∧
      script.textAfter 1 = injectImport content ∧
      (∀ rule : Rule, rule.shape.segments (script.textAfter (rule.step - 1)) =
        script.flatMap (Edit.scannedBy rule)) ∧
      script.textAfter 5 = rewritten content ∧
      (∀ (rule : Rule) (before occurrence after : Text), rule.shape.Spells occurrence →
        rewritten content = before ++ (occurrence ++ after) →
        ∃ edit, script.Crosses before occurrence after edit ∧ edit.Gathers ∧
          (rule ≠ .cookieExtraction → ∃ segment, edit = .replaced .cookieField segment)) ∧
      (injectImport (rewritten content) ≠ rewritten content →
        script.TakesOut helperImportSource ∨ script.TakesOut frameworkImportPrefix ∨
          script.JoinsAnchor) ∧
      ((∀ edit ∈ script, ¬ edit.Gathers) → ¬ script.TakesOut helperImportSource →
        ¬ script.TakesOut frameworkImportPrefix → rewrite? (rewritten content) = none) := by
  obtain ⟨script, retraces⟩ := Script.exists_retraces content
  refine ⟨script, retraces.recognised, retraces.source, retraces.imported,
    fun rule => retraces.scanned rule rule.step_le_five, retraces.rewritten, ?_⟩
  rw [← retraces.rewritten]
  exact ⟨Script.crosses_gathering retraces, Script.import_settled retraces,
    Script.rewrite?_of_ungathered retraces⟩

def doublyForwardingRoute : Text :=
  ("fetch(u, \x7b headers: \x7b 'Content-Type': 'application/json', " ++
    "Cookie: cookieHeader, Cookie: cookieHeader \x7d \x7d);").toList

-- Without its two fields the header object has the shape that the step before them looks for.
theorem second_rewriting : ∃ first second,
    rewrite? doublyForwardingRoute = some first ∧
      (∃ occurrence, .found occurrence ∈ jsonHeaders.segments first) ∧
      rewrite? first = some second := by
  refine ⟨"fetch(u, \x7b headers: \x7b 'Content-Type': 'application/json' \x7d \x7d);".toList,
    "fetch(u, \x7b headers: await buildBFFHeaders() \x7d);".toList, ?_,
    ⟨"headers: \x7b 'Content-Type': 'application/json' \x7d".toList, ?_⟩, ?_⟩
  · decide +kernel
  · decide +kernel
  · decide +kernel

end Route

end RouteMigration
