import RouteMigration.Proofs.Route.OwnText

set_option autoImplicit false

namespace RouteMigration

namespace Route

def cookieVariable : Text :=
  "cookieHeader".toList

-- Characters beyond ASCII are taken for letters.
def isIdentifierPart (c : Char) : Bool :=
  c.isAlphanum || c == '_' || c == '$' || 0x80 ≤ c.toNat

def standsAlone (before after : Text) : Bool :=
  !(before.getLast?.any isIdentifierPart) && !(after.head?.any isIdentifierPart)

def declaresVariable (content : Text) : Bool :=
  ["const ", "let ", "var "].any fun keyword => Text.holds (keyword.toList ++ cookieVariable) content

theorem clearOf_import (edit : Edit) (within : edit.Within 5) (before after : Text)
    (imported : edit = .imported before after) : edit.ClearOf cookieVariable := by
  have all : ∀ form ∈ Edit.importForms, Shape.avoids [.literal cookieVariable]
      (form.1 ++ helperImportLine ++ form.2) = true := by decide +kernel
  subst imported
  exact all (before, after) within

theorem remaining_uses (content : Text) :
    ∃ script : Script,
      (∀ edit ∈ script, edit.Recognised) ∧
      script.textAfter 0 = content ∧
      (∀ rule : Rule, rule.shape.segments (script.textAfter (rule.step - 1)) =
        script.flatMap (Edit.scannedBy rule)) ∧
      script.textAfter 5 = rewritten content ∧
      ∀ before after, rewritten content = before ++ (cookieVariable ++ after) →
        ∃ first middle last : Script, script = first ++ (middle ++ last) ∧
          first.textAfter 5 = before ∧ last.textAfter 5 = after ∧
          ((middle = cookieVariable.map .kept ∧
              content = first.textAfter 0 ++ (cookieVariable ++ last.textAfter 0)) ∨
            ((∀ edit ∈ middle, edit.Own) ∧
              ∃ segment, .replaced .cookieField segment ∈ middle)) := by
  obtain ⟨script, retraces⟩ := Script.exists_retraces content
  refine ⟨script, retraces.recognised, retraces.source,
    fun rule => retraces.scanned rule rule.step_le_five, retraces.rewritten, ?_⟩
  intro before after spelled
  rw [← retraces.rewritten] at spelled
  obtain ⟨first, middle, last, cut, firstText, middleText, lastText, owned⟩ :=
    Script.exists_own "ookieHeader".toList 'c' script
      (fun edit member => own_or_clearOf cookieVariable (by decide +kernel) edit
        (clearOf_import edit (retraces.within edit member))) before after spelled
  refine ⟨first, .kept 'c' :: middle, last, cut, firstText, lastText, ?_⟩
  by_cases whole : ∃ segment, Edit.replaced .cookieField segment ∈ middle
  · obtain ⟨segment, member⟩ := whole
    refine .inr ⟨?_, segment, List.mem_cons_of_mem _ member⟩
    simpa using ⟨trivial, owned⟩
  · have kept := Script.eq_kept middle owned (fun segment member => whole ⟨segment, member⟩)
    rw [middleText] at kept
    have same : .kept 'c' :: middle = cookieVariable.map Edit.kept := by
      rw [kept]
      rfl
    refine .inl ⟨same, ?_⟩
    rw [← retraces.source, cut, same, Script.textAfter_append, Script.textAfter_append,
      Script.textAfter_kept]

def danglingRoute : Text :=
  ("const cookieHeader = request.headers.get('cookie');\n" ++
    "fetch(u, \x7b headers: \x7b Cookie: cookieHeader, " ++
    "'Content-Type': 'application/json' \x7d \x7d);").toList

-- The two fields in the other order are no shape that a rule looks for.
theorem dangling_use : ∃ result before after,
    (∃ occurrence, .found occurrence ∈ cookieExtraction.segments (injectImport danglingRoute)) ∧
      rewrite? danglingRoute = some result ∧ declaresVariable result = false ∧
      result = before ++ (cookieVariable ++ after) ∧ standsAlone before after = true := by
  refine ⟨_, ("// Headers now built with buildBFFHeaders() including subdomain\n" ++
    "fetch(u, \x7b headers: \x7b Cookie: ").toList,
    ", 'Content-Type': 'application/json' \x7d \x7d);".toList,
    ⟨"const cookieHeader = request.headers.get('cookie');".toList, ?_⟩, ?_, ?_, rfl, ?_⟩
  · decide +kernel
  · decide +kernel
  · decide +kernel
  · decide +kernel

end Route

end RouteMigration
