import RouteMigration.Proofs.Route.MarkerLine
import RouteMigration.Proofs.Shape.Division
import RouteMigration.Proofs.Text.Joining

set_option autoImplicit false

namespace RouteMigration

namespace Text

theorem mem_lineOf_append (lead more : Text) (c : Char) (level : '\n' ∉ lead) (other : c ≠ '\n') :
    c ∈ lineOf (lead ++ c :: more) := by
  have inside : ∀ d ∈ lead, (d != '\n') = true := by
    intro d member
    simpa using ne_of_mem_of_not_mem member level
  simp [lineOf, List.takeWhile_append_of_pos inside, other]

theorem not_mem_lineOf (text : Text) : '\n' ∉ lineOf text := by
  intro member
  simpa using List.mem_takeWhile_imp member

theorem exists_lineOf_append (text : Text) : ∃ rest, text = lineOf text ++ rest :=
  ⟨text.dropWhile (· != '\n'), List.takeWhile_append_dropWhile.symm⟩

end Text

namespace Route

theorem readsFirst_of_ended (opening later : Text) (spelled : extractionOpening.Spells opening)
    (ended : ';' ∈ Text.lineOf later) : ReadsFirst (opening ++ later) := by
  obtain ⟨before, after, line⟩ := List.append_of_mem ended
  obtain ⟨rest, whole⟩ := Text.exists_lineOf_append later
  have level : '\n' ∉ before := by
    intro member
    exact Text.not_mem_lineOf later (by simp [line, member])
  refine ⟨opening ++ (before ++ [';']), after ++ rest, ?_, ?_⟩
  · rw [whole, line]
    simp
  · rw [cookieExtraction_eq, Shape.spells_append]
    exact ⟨opening, _, rfl, spelled, _, [], by simp, ⟨before, rfl, level⟩, rfl⟩

theorem readsFirst_of_strip (text part : Text) (spelled : cookieExtraction.Spells part)
    (opens : part <+: stripCookieExtraction text) : ReadsFirst text := by
  rw [cookieExtraction_eq, Shape.spells_append] at spelled
  obtain ⟨opening, _, rfl, openingSpelled, _, _, rfl, ⟨lead, rfl, level⟩, rfl⟩ := spelled
  obtain ⟨more, same⟩ := opens
  simp only [List.append_nil, List.append_assoc, List.singleton_append] at same
  have foreign := extractionOpening.not_mem_of_spells '/' (by decide) opening openingSpelled
  obtain ⟨later, rfl, stripped⟩ := cookieExtraction.exists_of_replaceAll_eq_append extractionMarker
    '/' (by decide) opening _ text foreign same.symm
  -- The line behind the opening has a semicolon after the step, so it had one before.
  have ended : ';' ∈ stripCookieExtraction (Text.lineOf later) := by
    rw [← lineOf_strip, stripCookieExtraction, stripped]
    exact Text.mem_lineOf_append lead more ';' level (by decide)
  have endedBefore : ';' ∈ Text.lineOf later :=
    (cookieExtraction.mem_of_mem_replaceAll extractionMarker _ ';' ended).resolve_right (by decide)
  exact readsFirst_of_ended opening later openingSpelled endedBefore

theorem not_infix_strip (content part : Text) (spelled : cookieExtraction.Spells part) :
    ¬ part <:+: stripCookieExtraction content := by
  induction content using cookieExtraction.scanInduction with
  | nil =>
    obtain ⟨c, tail, rfl, -⟩ := cookieExtraction.exists_filled part (by decide) spelled
    intro inside
    simp [stripCookieExtraction, Shape.replaceAll, Shape.segments_nil] at inside
  | found statement rest filled measured ih =>
    rw [cookieExtraction_eq, Shape.spells_append] at spelled
    obtain ⟨opening, more, rfl, openingSpelled, -⟩ := spelled
    rw [stripCookieExtraction, cookieExtraction.replaceAll_found _ statement rest filled measured]
    intro inside
    exact ih (extractionOpening.infix_of_infix_append (by decide) extractionMarker
      (by decide +kernel) opening more _ openingSpelled inside)
  | kept c rest unmatched ih =>
    have plain : ¬ ReadsFirst (c :: rest) := by
      rintro ⟨statement, after, same, reads⟩
      obtain ⟨width, measured⟩ := exists_width?_of_spells .cookieExtraction statement after reads
      rw [← same] at measured
      exact unmatched width measured
    have step := strip_of_not_readsFirst c rest plain
    intro inside
    rw [step, List.infix_cons_iff, ← step] at inside
    rcases inside with opens | later
    · exact plain (readsFirst_of_strip _ part spelled opens)
    · exact ih later

theorem extraction_by_lines (content : Text) :
    stripCookieExtraction content =
      join '\n' ((split '\n' content).map stripCookieExtraction) ∧
    (stripCookieExtraction content).count '\n' = content.count '\n' ∧
    (∀ part, cookieExtraction.Spells part → ¬ part <:+: stripCookieExtraction content) ∧
    stripCookieExtraction (stripCookieExtraction content) = stripCookieExtraction content := by
  have apart (first second : Text) : stripCookieExtraction (first ++ '\n' :: second) =
      stripCookieExtraction first ++ '\n' :: stripCookieExtraction second :=
    cookieExtraction.replaceAll_append_cons '\n' (by decide) extractionMarker first second
  refine ⟨?_, ?_, not_infix_strip content, ?_⟩
  · rw [← map_join stripCookieExtraction '\n' '\n' rfl apart, join_split]
  · exact cookieExtraction.count_replaceAll '\n' (by decide) extractionMarker (by decide) content
  · exact cookieExtraction.replaceAll_of_not_infix extractionMarker _ (not_infix_strip content)

end Route

end RouteMigration
