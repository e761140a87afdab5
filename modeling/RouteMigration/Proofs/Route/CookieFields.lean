import RouteMigration.Proofs.Shape.Division
import RouteMigration.Route.Headers

set_option autoImplicit false

namespace RouteMigration

namespace Route

def Removes (content before part after : Text) : Prop :=
  ∃ first later, cookieField.segments content = first ++ .found part :: later ∧
    first.flatMap Segment.source = before ∧ later.flatMap Segment.source = after

/-- Whether the value of a field has ended where a text goes on. -/
def endsValue (after : Text) : Bool :=
  (after.dropWhile isBlank).head?.all fun c => c == ',' || c == '\x7d'

theorem cookieField_opens : cookieField.opensWith ',' = true := by
  decide +kernel

theorem stripCookieFields_removed (before part after : Text) (spelled : cookieField.Spells part) :
    stripCookieFields (before ++ (part ++ after)) =
      stripCookieFields before ++ stripCookieFields after := by
  obtain ⟨tail, rfl, -⟩ := cookieField.opensWith_of_spells ',' cookieField_opens part spelled
  have first : cookieField.segments (before ++ ',' :: (tail ++ after)) =
      cookieField.segments before ++ cookieField.segments (',' :: (tail ++ after)) :=
    Shape.segments_append_opener cookieField_opens (by decide) before (tail ++ after)
  have onward : stripCookieFields (',' :: tail ++ after) = stripCookieFields after :=
    cookieField.replaceAll_found [] _ after (by simp)
      (cookieField.width?_of_spells (by decide) _ after spelled)
  rw [← onward, stripCookieFields, List.cons_append, Shape.replaceAll, first, List.flatMap_append]
  rfl

theorem exists_remainder (after : Text) (longer : endsValue after = false) :
    ∃ blanks c rest, after = blanks ++ c :: rest ∧ (∀ b ∈ blanks, isBlank b = true) ∧
      isBlank c = false ∧ c ≠ ',' ∧ c ≠ '\x7d' ∧
      stripCookieFields after = blanks ++ c :: stripCookieFields rest := by
  have parts := List.takeWhile_append_dropWhile (p := isBlank) (l := after)
  have filled := List.head?_dropWhile_not isBlank after
  have blanks : ∀ b ∈ after.takeWhile isBlank, isBlank b = true :=
    List.all_eq_true.mp List.all_takeWhile
  unfold endsValue at longer
  cases ahead : after.dropWhile isBlank with
  | nil => simp [ahead] at longer
  | cons c rest =>
    rw [ahead] at parts filled longer
    simp only [List.head?_cons, Option.all_some, Bool.or_eq_false_iff, beq_eq_false_iff_ne]
      at filled longer
    have level : ',' ∉ after.takeWhile isBlank ++ [c] := by
      rw [List.mem_append, List.mem_singleton, not_or]
      exact ⟨fun member => absurd (blanks ',' member) (by decide), longer.1.symm⟩
    have kept := cookieField.replaceAll_level ',' (by decide) [] _ rest level
    rw [List.append_assoc, List.append_assoc, List.singleton_append, List.singleton_append, parts]
      at kept
    exact ⟨after.takeWhile isBlank, c, rest, parts.symm, blanks, filled, longer.1, longer.2, kept⟩

theorem removed_fields (content : Text) :
    (∀ before part after, Removes content before part after ↔
      cookieField.Spells part ∧ content = before ++ (part ++ after)) ∧
    ∀ before part after, Removes content before part after →
      stripCookieFields content = stripCookieFields before ++ stripCookieFields after ∧
      (endsValue after = true ∨
        ∃ blanks c rest, after = blanks ++ c :: rest ∧ (∀ b ∈ blanks, isBlank b = true) ∧
          isBlank c = false ∧ c ≠ ',' ∧ c ≠ '\x7d' ∧
          stripCookieFields content =
            stripCookieFields before ++ (blanks ++ c :: stripCookieFields rest)) := by
  have found (before part after : Text) : Removes content before part after ↔
      cookieField.Spells part ∧ content = before ++ (part ++ after) :=
    Shape.found_iff cookieField_opens (by decide) content before part after
  refine ⟨found, ?_⟩
  intro before part after removes
  obtain ⟨spelled, rfl⟩ := (found before part after).mp removes
  have stripped := stripCookieFields_removed before part after spelled
  refine ⟨stripped, ?_⟩
  cases ends : endsValue after with
  | true => exact .inl rfl
  | false =>
    obtain ⟨blanks, c, rest, same, blank, filled, comma, brace, kept⟩ := exists_remainder after ends
    exact .inr ⟨blanks, c, rest, same, blank, filled, comma, brace, by rw [stripped, kept]⟩

def wholeFieldHeaders : Text :=
  "headers: \x7b A: b, Cookie: cookieHeader, C: d \x7d".toList

theorem removed_fields_wholeFieldHeaders :
    Removes wholeFieldHeaders "headers: \x7b A: b".toList ", Cookie: cookieHeader".toList
        ", C: d \x7d".toList ∧
      stripCookieFields wholeFieldHeaders =
        stripCookieFields "headers: \x7b A: b".toList ++ stripCookieFields ", C: d \x7d".toList := by
  have removes : Removes wholeFieldHeaders "headers: \x7b A: b".toList
      ", Cookie: cookieHeader".toList ", C: d \x7d".toList :=
    ⟨"headers: \x7b A: b".toList.map .kept, ", C: d \x7d".toList.map .kept, by decide +kernel,
      by decide +kernel, by decide +kernel⟩
  exact ⟨removes, ((removed_fields wholeFieldHeaders).2 _ _ _ removes).1⟩

theorem mangled_values :
    (∃ before part after, Removes "headers: \x7b A: b, Cookie: cookieHeaderValue \x7d".toList
        before part after ∧ endsValue after = false) ∧
      stripCookieFields "headers: \x7b A: b, Cookie: cookieHeaderValue \x7d".toList =
        "headers: \x7b A: bValue \x7d".toList ∧
    (∃ before part after, Removes "headers: \x7b A: b, Cookie: cookieHeader || c \x7d".toList
        before part after ∧ endsValue after = false) ∧
      stripCookieFields "headers: \x7b A: b, Cookie: cookieHeader || c \x7d".toList =
        "headers: \x7b A: b || c \x7d".toList := by
  have longerName : Removes "headers: \x7b A: b, Cookie: cookieHeaderValue \x7d".toList
      "headers: \x7b A: b".toList ", Cookie: cookieHeader".toList "Value \x7d".toList :=
    ⟨"headers: \x7b A: b".toList.map .kept, "Value \x7d".toList.map .kept, by decide +kernel,
      by decide +kernel, by decide +kernel⟩
  have longerValue : Removes "headers: \x7b A: b, Cookie: cookieHeader || c \x7d".toList
      "headers: \x7b A: b".toList ", Cookie: cookieHeader".toList " || c \x7d".toList :=
    ⟨"headers: \x7b A: b".toList.map .kept, " || c \x7d".toList.map .kept, by decide +kernel,
      by decide +kernel, by decide +kernel⟩
  refine ⟨⟨_, _, _, longerName, ?_⟩, ?_, ⟨_, _, _, longerValue, ?_⟩, ?_⟩
  all_goals decide +kernel

end Route

end RouteMigration
