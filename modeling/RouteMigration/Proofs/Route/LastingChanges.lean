import Mathlib.Data.Prod.Lex
import RouteMigration.Proofs.Route.Crossing
import RouteMigration.Proofs.Route.ImportAnchor
import RouteMigration.Proofs.Shape.Weight

set_option autoImplicit false

namespace RouteMigration

namespace Route

inductive Pass where
  | addImport
  | replace (rule : Rule)

namespace Pass

def run : Pass → Text → Text
  | .addImport, content => injectImport content
  | .replace rule, content => rule.shape.replaceAll rule.replacement content

def runAll (passes : List Pass) (content : Text) : Text :=
  passes.foldl (fun text pass => pass.run text) content

def inOrder : List Pass :=
  [.addImport, .replace .cookieExtraction, .replace .cookieHeaders, .replace .jsonHeaders,
    .replace .cookieField]

theorem mem_inOrder (pass : Pass) : pass ∈ inOrder := by
  rcases pass with _ | (_ | _ | _ | _) <;> simp [inOrder]

end Pass

theorem rewritten_eq_runAll (content : Text) :
    rewritten content = Pass.runAll Pass.inOrder content := by
  simp only [Pass.runAll, Pass.inOrder, List.foldl_cons, List.foldl_nil, Pass.run, Rule.shape,
    Rule.replacement, rewritten, stripCookieExtraction, replaceCookieHeaders, replaceJsonHeaders,
    stripCookieFields]

theorem runAll_kept (P : Text → Prop) (passes : List Pass)
    (kept : ∀ pass ∈ passes, ∀ text, P text → P (pass.run text)) (content : Text)
    (holds : P content) : P (Pass.runAll passes content) := by
  induction passes generalizing content with
  | nil => exact holds
  | cons pass later ih =>
    exact ih (fun other member => kept other (List.mem_cons_of_mem _ member)) (pass.run content)
      (kept pass (by simp) content holds)

theorem rewritten_kept (P : Text → Prop)
    (kept : ∀ (rule : Rule) text, P text → P (rule.shape.replaceAll rule.replacement text))
    (content : Text) (imported : P (injectImport content)) : P (rewritten content) := by
  rw [rewritten_eq_runAll]
  apply runAll_kept P Pass.inOrder.tail _ (injectImport content) imported
  rintro (_ | rule) member
  · simp [Pass.inOrder] at member
  · exact kept rule

theorem lighter_replacement (rule : Rule) : rule.replacement.weight < rule.shape.leastWeight := by
  cases rule <;> decide +kernel

theorem replaceAll_eq_self_iff (rule : Rule) (content : Text) :
    rule.shape.replaceAll rule.replacement content = content ↔
      ∀ part, rule.shape.Spells part → ¬ part <:+: content := by
  constructor
  · rintro same part spelled ⟨before, after, rfl⟩
    obtain ⟨width, measured⟩ := exists_width?_of_spells rule part after spelled
    obtain ⟨found, member⟩ := rule.shape.exists_found_of_width? before _ width measured
    rw [← List.append_assoc] at member
    have lost := rule.shape.weight_replaceAll_lt rule.replacement (lighter_replacement rule) _ found
      member
    rw [same] at lost
    exact absurd lost (Nat.lt_irrefl _)
  · intro unspelled
    apply rule.shape.replaceAll_of_unspelled
    rintro before part after _ spelled rfl
    exact unspelled part spelled ⟨before, after, by simp⟩

def importBlock : Text :=
  '\n' :: helperImportLine

theorem block_or_same (content : Text) :
    importBlock <:+: injectImport content ∨ injectImport content = content := by
  obtain ⟨script, imports⟩ := Script.exists_imports content
  rw [← imports.imported]
  by_cases imported : ∃ before after, Edit.imported before after ∈ script
  · left
    obtain ⟨before, after, member⟩ := imported
    have all : ∀ form ∈ Edit.importForms,
        importBlock <:+: form.1 ++ helperImportLine ++ form.2 := by decide +kernel
    exact (all (before, after) (imports.within _ member)).trans
      (Script.infix_of_mem 1 script _ member)
  · right
    rw [Script.textAfter_one_of_unimported script
      fun before after member => imported ⟨before, after, member⟩]
    exact imports.source

theorem source_of_block (content : Text) (present : importBlock <:+: content) :
    helperImportSource <:+: content :=
  (source_infix_line.trans (List.suffix_cons _ _).isInfix).trans present

theorem injectImport_of_block (content : Text) (present : importBlock <:+: content) :
    injectImport content = content := by
  have sourced := (Text.holds_iff _ _).mpr (source_of_block content present)
  simp [injectImport, sourced]

theorem block_run (pass : Pass) (content : Text) (present : importBlock <:+: content) :
    importBlock <:+: pass.run content := by
  cases pass with
  | addImport =>
    rw [Pass.run, injectImport_of_block content present]
    exact present
  | replace rule =>
    exact rule.shape.infix_replaceAll_of_avoids importBlock
      (avoids_import rule (['\n'], []) (by simp [Edit.importForms])) _ content present

/-- What a pass brings down: first the import that is missing, then the weight. -/
def rank (content : Text) : Nat ×ₗ Nat :=
  toLex (if Text.holds importBlock content then 0 else 1, content.weight)

theorem lighter_or_same (rule : Rule) (content : Text) :
    (rule.shape.replaceAll rule.replacement content).weight < content.weight ∨
      rule.shape.replaceAll rule.replacement content = content := by
  by_cases found : ∃ part, .found part ∈ rule.shape.segments content
  · obtain ⟨part, member⟩ := found
    exact .inl (rule.shape.weight_replaceAll_lt rule.replacement (lighter_replacement rule) content
      part member)
  · exact .inr (rule.shape.replaceAll_of_unfound rule.replacement content
      fun part member => found ⟨part, member⟩)

theorem rank_run_lt (pass : Pass) (content : Text) (changed : pass.run content ≠ content) :
    rank (pass.run content) < rank content := by
  rw [rank, rank, Prod.Lex.toLex_lt_toLex]
  cases pass with
  | addImport =>
    have added := (block_or_same content).resolve_right changed
    have absent : ¬ Text.holds importBlock content = true := by
      rw [Text.holds_iff]
      exact fun present => changed (injectImport_of_block content present)
    left
    simp [Pass.run, (Text.holds_iff _ _).mpr added, absent]
  | replace rule =>
    have lost := (lighter_or_same rule content).resolve_right changed
    by_cases present : importBlock <:+: content
    · have still := block_run (.replace rule) content present
      rw [← Text.holds_iff] at present still
      exact .inr ⟨by simp [present, still], lost⟩
    · rw [← Text.holds_iff] at present
      by_cases gained : Text.holds importBlock ((Pass.replace rule).run content) = true
      · left
        simp [present, gained]
      · exact .inr ⟨by simp [present, gained], lost⟩

theorem rank_runAll_le (passes : List Pass) (content : Text) :
    rank (Pass.runAll passes content) ≤ rank content := by
  induction passes generalizing content with
  | nil => exact le_refl _
  | cons pass later ih =>
    apply (ih (pass.run content)).trans
    by_cases same : pass.run content = content
    · rw [same]
    · exact (rank_run_lt pass content same).le

theorem runAll_eq_self_iff (passes : List Pass) (content : Text) :
    Pass.runAll passes content = content ↔ ∀ pass ∈ passes, pass.run content = content := by
  induction passes with
  | nil => simp [Pass.runAll]
  | cons pass later ih =>
    rw [List.forall_mem_cons]
    by_cases same : pass.run content = content
    · have onward : Pass.runAll (pass :: later) content = Pass.runAll later content := by
        rw [Pass.runAll, List.foldl_cons, same]
        rfl
      rw [onward, ih]
      simp [same]
    · have down := (rank_runAll_le later (pass.run content)).trans_lt (rank_run_lt pass content same)
      simp only [same, false_and, iff_false]
      intro back
      have whole : Pass.runAll later (pass.run content) = content := back
      rw [whole] at down
      exact lt_irrefl _ down

theorem rewrite?_eq_none_iff (content : Text) :
    (rewrite? content = none ↔ injectImport content = content ∧
      ∀ (rule : Rule) (part : Text), rule.shape.Spells part → ¬ part <:+: content) ∧
    (rewrite? content = none ↔ injectImport content = content ∧
      stripCookieExtraction content = content ∧ replaceCookieHeaders content = content ∧
      replaceJsonHeaders content = content ∧ stripCookieFields content = content) ∧
    ∀ passes : List Pass, Pass.runAll passes content = content ↔
      ∀ pass ∈ passes, pass.run content = content := by
  have settled : rewrite? content = none ↔ ∀ pass : Pass, pass.run content = content := by
    have same : rewrite? content = none ↔ rewritten content = content := by simp [rewrite?]
    rw [same, rewritten_eq_runAll, runAll_eq_self_iff]
    exact ⟨fun idle pass => idle pass pass.mem_inOrder, fun idle pass _ => idle pass⟩
  refine ⟨settled.trans ⟨?_, ?_⟩, settled.trans ⟨?_, ?_⟩, fun passes =>
    runAll_eq_self_iff passes content⟩
  · intro idle
    exact ⟨idle .addImport, fun rule => (replaceAll_eq_self_iff rule content).mp (idle (.replace rule))⟩
  · rintro ⟨unimported, unspelled⟩ pass
    cases pass with
    | addImport => exact unimported
    | replace rule => exact (replaceAll_eq_self_iff rule content).mpr (unspelled rule)
  · intro idle
    exact ⟨idle .addImport, idle (.replace .cookieExtraction), idle (.replace .cookieHeaders),
      idle (.replace .jsonHeaders), idle (.replace .cookieField)⟩
  · rintro ⟨unimported, extraction, cookies, headers, fields⟩ pass
    cases pass with
    | addImport => exact unimported
    | replace rule =>
      cases rule with
      | cookieExtraction => exact extraction
      | cookieHeaders => exact cookies
      | jsonHeaders => exact headers
      | cookieField => exact fields

end Route

end RouteMigration
