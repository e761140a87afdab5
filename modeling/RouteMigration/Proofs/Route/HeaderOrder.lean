import RouteMigration.Proofs.Route.HelperCalls
import RouteMigration.Proofs.Shape.Rivalry

set_option autoImplicit false

namespace RouteMigration

namespace Route

theorem replaceable_headers (shape : Shape) (opens : shape.opensWith 'h' = true)
    (whole : shape.firm = true) (rejects : shape.rejects helperCall = true) :
    Replaceable 'h' helperCall shape :=
  ⟨opens, whole, helperCall_opens, rejects⟩

theorem rivals_headers : Rivals 'h' helperCall cookieHeaders jsonHeaders where
  ofFirst := replaceable_headers cookieHeaders (by decide +kernel) (by decide) (by decide +kernel)
  ofSecond := replaceable_headers jsonHeaders (by decide +kernel) (by decide) (by decide +kernel)
  diverge := by
    -- What follows the blanks is a comma in the one and a brace in the other.
    have cookies : cookieHeaders =
        headersOpening ++ contentTypeField ++ [.blanks] ++ (cookieField ++ headersClosing) := by
      simp [cookieHeaders]
    have plain : jsonHeaders =
        headersOpening ++ contentTypeField ++ [.blanks] ++ [.literal "\x7d".toList] := by
      simp [jsonHeaders, headersClosing]
    rw [cookies, plain]
    exact Shape.diverge_append _ _ _ ',' '\x7d' rfl rfl (by decide)

/-- Replacing all that has the one shape leaves the texts of the other as and where they were. -/
structure Spares (replaced spared : Shape) (content : Text) : Prop where
  found : (spared.segments (replaced.replaceAll helperCall content)).filter Segment.isFound =
    (spared.segments content).filter Segment.isFound
  placed : ∀ before part after, spared.Spells part →
    (replaced.replaceAll helperCall content = before ++ (part ++ after) ↔
      ∃ earlier later, content = earlier ++ (part ++ later) ∧
        replaced.replaceAll helperCall earlier = before ∧
        replaced.replaceAll helperCall later = after)

theorem header_replacements_commute (content : Text) :
    replaceCookieHeaders (replaceJsonHeaders content) =
      replaceJsonHeaders (replaceCookieHeaders content) ∧
    (∀ before part after between other rest, cookieHeaders.Spells part → jsonHeaders.Spells other →
      content = before ++ (part ++ after) → content = between ++ (other ++ rest) →
      before ++ part <+: between ∨ between ++ other <+: before) ∧
    Spares cookieHeaders jsonHeaders content ∧ Spares jsonHeaders cookieHeaders content := by
  have spares (replaced spared : Shape) (rivals : Rivals 'h' helperCall spared replaced) :
      Spares replaced spared content :=
    ⟨rivals.found_segments content, rivals.placed_iff content⟩
  refine ⟨rivals_headers.replaceAll_comm content, ?_, spares _ _ rivals_headers.symm,
    spares _ _ rivals_headers⟩
  rintro before part after between other rest spelled spelledOther rfl same
  exact rivals_headers.disjoint before part after between other rest spelled spelledOther same

end Route

end RouteMigration
