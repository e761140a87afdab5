import RouteMigration.Proofs.Route.OwnText
import RouteMigration.Proofs.Shape.Locality

set_option autoImplicit false

namespace RouteMigration

namespace Route

theorem line_of_imported (script : Script) (before after : Text)
    (member : .imported before after ∈ script) : helperImportLine <:+: script.textAfter 5 := by
  have inEdit : helperImportLine <:+: (Edit.imported before after).textAfter 5 :=
    ⟨before, after, rfl⟩
  exact inEdit.trans (Script.infix_of_mem 5 script _ member)

theorem ne_nil_of_cookieField (segment : Text) (spelled : cookieField.Spells segment) :
    segment ≠ [] := by
  obtain ⟨c, rest, rfl, -⟩ := Shape.exists_filled cookieField segment (by decide) spelled
  simp

theorem stripCookieFields_own (script : Script) (owned : ∀ edit ∈ script, edit.Own)
    (recognised : ∀ edit ∈ script, edit.Recognised)
    (level : ',' ∉ script.textAfter 5) (rest : Text) :
    stripCookieFields (script.textAfter 0 ++ rest) =
      script.textAfter 5 ++ stripCookieFields rest := by
  induction script with
  | nil => rfl
  | cons edit script ih =>
    rw [Script.textAfter_cons, List.mem_append, not_or] at level
    have later := ih (fun other member => owned other (List.mem_cons_of_mem _ member))
      (fun other member => recognised other (List.mem_cons_of_mem _ member)) level.2
    rw [Script.textAfter_cons, Script.textAfter_cons, List.append_assoc, List.append_assoc, ← later]
    rcases textAfter_own edit (owned edit (by simp)) with ⟨c, rfl⟩ | ⟨⟨segment, rfl⟩, -⟩
    · have different : c ≠ ',' := by
        rintro rfl
        exact level.1 (by simp [Edit.textAfter])
      apply Shape.replaceAll_kept
      intro width measured
      exact different (cookieField.eq_opener ',' (by decide) c _ _ measured)
    · have spelled : cookieField.Spells segment :=
        recognised (.replaced .cookieField segment) (by simp)
      apply Shape.replaceAll_found
      · exact ne_nil_of_cookieField segment spelled
      · exact cookieField.width?_of_spells (by decide) segment _ spelled

theorem source_of_unimported (script : Script) (recognised : ∀ edit ∈ script, edit.Recognised)
    (unimported : ∀ before after, Edit.imported before after ∉ script)
    (sourced : helperImportSource <:+: script.textAfter 5) :
    helperImportSource <:+: stripCookieFields (script.textAfter 0) := by
  obtain ⟨before, after, spelled⟩ := sourced
  rw [List.append_assoc] at spelled
  have clear : ∀ edit ∈ script, edit.Own ∨ edit.ClearOf helperImportSource := by
    intro edit member
    apply own_or_clearOf helperImportSource (by decide +kernel)
    rintro before after rfl
    exact absurd member (unimported before after)
  obtain ⟨first, middle, last, rfl, -, middleText, -, owned⟩ :=
    Script.exists_own "rom \"@/lib/bffHelpers\"".toList 'f' script clear before after
      spelled.symm
  have level : ',' ∉ Script.textAfter 5 middle := by
    rw [middleText]
    decide
  have stretch := stripCookieFields_own middle owned
    (fun edit member => recognised edit (by simp [member])) level (Script.textAfter 0 last)
  have whole : stripCookieFields (Script.textAfter 0 first ++
      'f' :: (Script.textAfter 0 middle ++ Script.textAfter 0 last)) =
      stripCookieFields (Script.textAfter 0 first) ++
        'f' :: stripCookieFields (Script.textAfter 0 middle ++ Script.textAfter 0 last) :=
    cookieField.replaceAll_append_cons 'f' (by decide) [] _ _
  have original : Script.textAfter 0 (first ++ (.kept 'f' :: middle ++ last)) =
      Script.textAfter 0 first ++
        'f' :: (Script.textAfter 0 middle ++ Script.textAfter 0 last) := by
    simp [Script.textAfter_append, Script.textAfter_cons, Edit.textAfter]
  rw [original, whole, stretch, middleText]
  refine ⟨stripCookieFields (Script.textAfter 0 first),
    stripCookieFields (Script.textAfter 0 last), ?_⟩
  rw [List.append_assoc]
  rfl

theorem call_bound_or_flagged (content result : Text) (changed : rewrite? content = some result)
    (called : Text.holds helperCall result = true)
    (unsourced : Text.holds helperImportSource (stripCookieFields content) = false) :
    Text.holds helperImportLine result = true ∨ helperImportMissing result = true := by
  obtain ⟨rfl, -⟩ := (rewrite?_eq_some_iff content result).mp changed
  obtain ⟨script, retraces⟩ := Script.exists_retraces content
  by_cases imported : ∃ before after, Edit.imported before after ∈ script
  · obtain ⟨before, after, member⟩ := imported
    left
    rw [Text.holds_iff, ← retraces.rewritten]
    exact line_of_imported script before after member
  · right
    have unimported : ∀ before after, Edit.imported before after ∉ script :=
      fun before after member => imported ⟨before, after, member⟩
    have absent : Text.holds helperImportSource (rewritten content) = false := by
      rw [Bool.eq_false_iff, ne_eq, Text.holds_iff, ← retraces.rewritten]
      intro sourced
      have clause := source_of_unimported script retraces.recognised unimported sourced
      rw [retraces.source, ← Text.holds_iff, unsourced] at clause
      cases clause
    simp [helperImportMissing, called, absent]

def bareRoute : Text :=
  "fetch(u, \x7b headers: \x7b 'Content-Type': 'application/json' \x7d \x7d)".toList

theorem call_bound_or_flagged_bareRoute : ∃ result, rewrite? bareRoute = some result ∧
    Text.holds helperCall result = true ∧
    Text.holds helperImportSource (stripCookieFields bareRoute) = false ∧
    (Text.holds helperImportLine result = true ∨ helperImportMissing result = true) := by
  have changed : rewrite? bareRoute =
      some "fetch(u, \x7b headers: await buildBFFHeaders() \x7d)".toList := by decide +kernel
  have called : Text.holds helperCall
      "fetch(u, \x7b headers: await buildBFFHeaders() \x7d)".toList = true := by decide +kernel
  have unsourced : Text.holds helperImportSource (stripCookieFields bareRoute) = false := by
    decide +kernel
  exact ⟨_, changed, called, unsourced,
    call_bound_or_flagged bareRoute _ changed called unsourced⟩

theorem unflagged_call : ∃ result,
    Text.holds helperMarker ("import \x7b other \x7d from \"@/lib/bffHelpers\";\n".toList ++
      bareRoute) = false ∧
    rewrite? ("import \x7b other \x7d from \"@/lib/bffHelpers\";\n".toList ++ bareRoute) =
      some result ∧
    Text.holds helperCall result = true ∧ Text.holds helperImportLine result = false ∧
      helperImportMissing result = false := by
  refine ⟨"import \x7b other \x7d from \"@/lib/bffHelpers\";\n".toList ++
    "fetch(u, \x7b headers: await buildBFFHeaders() \x7d)".toList, ?_⟩
  decide +kernel

end Route

end RouteMigration
