import RouteMigration.Proofs.Route.LastingChanges

set_option autoImplicit false

namespace RouteMigration

namespace Route

theorem block_rewritten (content : Text) (changed : injectImport content ≠ content) :
    importBlock <:+: rewritten content := by
  apply rewritten_kept (importBlock <:+: ·)
  · exact fun rule text present => block_run (.replace rule) text present
  · exact (block_or_same content).resolve_right changed

theorem startsLine_of_block (content : Text) (present : importBlock <:+: content) :
    ∃ before after, StartsLine before ∧ content = before ++ (helperImportLine ++ after) := by
  obtain ⟨before, after, rfl⟩ := present
  exact ⟨before ++ ['\n'], after, .inr (by simp), by simp [importBlock]⟩

theorem helperImportMissing_of_block (content : Text) (present : importBlock <:+: content) :
    helperImportMissing content = false := by
  have sourced := (Text.holds_iff _ _).mpr (source_of_block content present)
  simp [helperImportMissing, sourced]

theorem import_lasts (content : Text) :
    (injectImport content ≠ content → ∃ result, rewrite? content = some result ∧
      (∃ before after, StartsLine before ∧ result = before ++ (helperImportLine ++ after)) ∧
      helperImportMissing result = false ∧ injectImport result = result) ∧
    injectImport (injectImport content) = injectImport content := by
  constructor
  · intro changed
    have survives := block_rewritten content changed
    have absent : ¬ importBlock <:+: content :=
      fun present => changed (injectImport_of_block content present)
    have different : rewritten content ≠ content := by
      intro same
      rw [same] at survives
      exact absent survives
    exact ⟨rewritten content, (rewrite?_eq_some_iff content _).mpr ⟨rfl, different⟩,
      startsLine_of_block _ survives, helperImportMissing_of_block _ survives,
      injectImport_of_block _ survives⟩
  · rcases block_or_same content with block | same
    · exact injectImport_of_block _ block
    · rw [same, same]

def unendedImportRoute : Text :=
  "fetch(u);\r\nimport x".toList

theorem import_lasts_unendedImportRoute :
    injectImport unendedImportRoute ≠ unendedImportRoute ∧
      ∃ result, rewrite? unendedImportRoute = some result ∧
        helperImportMissing result = false ∧ injectImport result = result := by
  have changed : injectImport unendedImportRoute ≠ unendedImportRoute := by decide +kernel
  obtain ⟨result, rewritten, -, found, settled⟩ := (import_lasts unendedImportRoute).1 changed
  exact ⟨changed, result, rewritten, found, settled⟩

end Route

end RouteMigration
