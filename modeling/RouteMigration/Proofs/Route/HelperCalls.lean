import RouteMigration.Proofs.Shape.Division
import RouteMigration.Route.Rewriting

set_option autoImplicit false

namespace RouteMigration

namespace Route

/-- One new call in the place of each text of the shape, and none besides. -/
structure OneCallEach (shape : Shape) (content result : Text) : Prop where
  divided : ∃! segments, shape.Divides content segments
  replaced : ∀ segments, shape.Divides content segments →
    result = segments.flatMap (Segment.rewritten helperCall) ∧
      Text.occurrences helperCall result =
        Text.occurrences helperCall content + segments.countP Segment.isFound
  exhausted : ∀ part, shape.Spells part → ¬ part <:+: result

theorem helperCall_opens : helperCall.OpensWith 'h' :=
  ⟨"eaders: await buildBFFHeaders()".toList, rfl, by decide⟩

theorem oneCallEach_replaceAll (shape : Shape) (opens : shape.opensWith 'h' = true)
    (whole : shape.firm = true) (rejected : shape.rejects helperCall = true) (content : Text) :
    OneCallEach shape content (shape.replaceAll helperCall content) where
  divided := ⟨shape.segments content, Shape.divides_segments opens whole content,
    fun _ other => other.unique opens (Shape.divides_segments opens whole content)⟩
  replaced := by
    intro segments divides
    obtain rfl := divides.unique opens (Shape.divides_segments opens whole content)
    refine ⟨rfl, ?_⟩
    have absent (part : Text) (member : .found part ∈ shape.segments content) (rest : Text) :
        helperCall.isPrefixOf (part ++ rest) = false := by
      rw [Bool.eq_false_iff, ne_eq, List.isPrefixOf_iff_prefix]
      rintro ⟨after, same⟩
      have measured := shape.width?_of_spells whole part rest (divides.spelled part member)
      rw [← same, shape.width?_of_rejects helperCall after rejected] at measured
      cases measured
    have counted := occurrences_rewritten helperCall_opens _ (divides.marks opens) absent
    rwa [shape.source_segments] at counted
  exhausted := Shape.not_infix_replaceAll opens whole helperCall helperCall_opens rejected content

theorem OneCallEach.settled {shape : Shape} {content result : Text}
    (calls : OneCallEach shape content result) : shape.replaceAll helperCall result = result :=
  shape.replaceAll_of_not_infix helperCall result calls.exhausted

theorem one_call_each (content : Text) :
    (OneCallEach cookieHeaders content (replaceCookieHeaders content) ∧
      replaceCookieHeaders (replaceCookieHeaders content) = replaceCookieHeaders content) ∧
    OneCallEach jsonHeaders content (replaceJsonHeaders content) ∧
      replaceJsonHeaders (replaceJsonHeaders content) = replaceJsonHeaders content := by
  have cookies := oneCallEach_replaceAll cookieHeaders (by decide +kernel) (by decide)
    (by decide +kernel) content
  have headers := oneCallEach_replaceAll jsonHeaders (by decide +kernel) (by decide)
    (by decide +kernel) content
  exact ⟨⟨cookies, cookies.settled⟩, headers, headers.settled⟩

end Route

end RouteMigration
