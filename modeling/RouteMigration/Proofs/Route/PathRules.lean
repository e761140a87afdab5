import RouteMigration.Proofs.Path.Names
import RouteMigration.Proofs.Text.Joining
import RouteMigration.Proofs.Text.Lossy
import RouteMigration.Route.Eligibility

set_option autoImplicit false

namespace RouteMigration

theorem mem_zip_tail_iff {A : Type} (items : List A) (item next : A) :
    (item, next) ∈ items.zip items.tail ↔
      ∃ before after, items = before ++ item :: next :: after := by
  induction items with
  | nil => simp
  | cons first rest ih =>
    cases rest with
    | nil => simp [List.cons_eq_append_iff]
    | cons second later =>
      rw [List.tail_cons, List.zip_cons_cons, List.mem_cons]
      constructor
      · rintro (same | further)
        · cases same
          exact ⟨[], later, rfl⟩
        · obtain ⟨before, after, same⟩ := ih.mp further
          exact ⟨first :: before, after, by rw [same, List.cons_append]⟩
      · rintro ⟨before, after, same⟩
        cases before with
        | nil =>
          cases same
          exact .inl rfl
        | cons head before =>
          rw [List.cons_append, List.cons.injEq] at same
          exact .inr (ih.mpr ⟨before, after, same.2⟩)

theorem mem_dropLast_iff {A : Type} (items : List A) (item : A) :
    item ∈ items.dropLast ↔ ∃ pair ∈ items.zip items.tail, pair.1 = item := by
  induction items with
  | nil => simp
  | cons first rest ih =>
    cases rest with
    | nil => simp
    | cons second later =>
      rw [List.dropLast_cons_cons, List.mem_cons, ih]
      simp [eq_comm]

theorem find?_cons_eq_ite {A : Type} (holds : A → Prop) [DecidablePred holds] (first : A)
    (later : List A) : (first :: later).find? (holds ·) =
      if holds first then some first else later.find? (holds ·) := by
  by_cases here : holds first <;> simp [here]

namespace Location

theorem octets_eq_join (place : Location) (filled : place ≠ []) :
    place.octets = join slash ([] :: place) := by
  obtain ⟨name, later, rfl⟩ := List.exists_cons_of_ne_nil filled
  rw [join_cons_cons]
  rfl

theorem infix_octets_iff (place : Location) (single : ∀ other ∈ place, slash ∉ other)
    (name start : Name) (nameSingle : slash ∉ name) (startSingle : slash ∉ start) :
    slash :: (name ++ slash :: start) <:+: place.octets ↔
      ∃ pair ∈ place.zip place.tail, pair.1 = name ∧ start <+: pair.2 := by
  constructor
  · rintro ⟨before, after, same⟩
    have filled : place ≠ [] := by
      rintro rfl
      have length := congrArg List.length same
      simp [octets, join, List.intercalate] at length
      omega
    -- Both sides are cut at their slashes; the name and the start have none.
    have pieces := congrArg (split slash) same
    obtain ⟨more, later, ends⟩ := exists_split_append slash start after startSingle
    obtain ⟨first, parts, opens⟩ := List.exists_cons_of_ne_nil (split_ne_nil slash before)
    rw [octets, split_cons_self, split_join slash place filled single, List.append_assoc,
      List.cons_append, List.append_assoc, split_append_cons, List.cons_append, split_append_cons,
      split_of_not_mem slash name nameSingle, ends, opens, List.cons_append, List.cons.injEq]
      at pieces
    refine ⟨(name, start ++ more), ?_, rfl, List.prefix_append _ _⟩
    exact (mem_zip_tail_iff place _ _).mpr ⟨parts, later, pieces.2.symm⟩
  · rintro ⟨⟨other, next⟩, member, named, more, started⟩
    dsimp only at named started
    subst named started
    obtain ⟨before, after, rfl⟩ := (mem_zip_tail_iff place other _).mp member
    have path := join_append slash ([] :: before) (other :: (start ++ more) :: after) (by simp)
      (by simp)
    rw [List.cons_append] at path
    rw [octets_eq_join _ (by simp), path, join_cons_cons, join_head_append]
    exact ⟨join slash ([] :: before), join slash (more :: after), by simp⟩

end Location

theorem Utf8.lossy_join (names : List Name) :
    lossy (join slash names) = join '/' (names.map lossy) := by
  apply map_join lossy slash '/' rfl
  intro first second
  rw [lossy_append_cons first slash second (by decide), lossy_cons slash second (by decide)]
  rfl

theorem Text.lowerLatin_join (pieces : List Text) :
    lowerLatin (join '/' pieces) = join '/' (pieces.map lowerLatin) := by
  apply map_join lowerLatin '/' '/' rfl
  intro first second
  rw [lowerLatin, List.flatMap_append, List.flatMap_cons]
  rfl

namespace Route

def Mentions (word : Text) (name : Name) : Prop :=
  word <:+: Text.lowerLatin (Utf8.lossy name)

instance (word : Text) (name : Name) : Decidable (Mentions word name) :=
  decidable_of_iff _ (Text.holds_iff word _)

def Applies (names : List Name) : SkipReason → Prop
  | .authRoute => nameOf "auth" ∈ names.dropLast
  | .publicRoute => nameOf "public" ∈ names.dropLast
  | .emailRoute => nameOf "email" ∈ names.dropLast
  | .webhookRoute => ∃ name ∈ names, Mentions "webhook".toList name
  | .subscriptionRoute => nameOf "subscription" ∈ names.dropLast ∨
      ∃ pair ∈ names.zip names.tail, pair.1 = nameOf "payment" ∧ nameOf "initiate" <+: pair.2
  | .alreadyUpdated | .noFetchCalls | .noPatternMatched => False

instance (names : List Name) : DecidablePred (Applies names)
  | .authRoute => inferInstanceAs (Decidable (nameOf "auth" ∈ names.dropLast))
  | .publicRoute => inferInstanceAs (Decidable (nameOf "public" ∈ names.dropLast))
  | .emailRoute => inferInstanceAs (Decidable (nameOf "email" ∈ names.dropLast))
  | .webhookRoute => inferInstanceAs (Decidable (∃ name ∈ names, Mentions "webhook".toList name))
  | .subscriptionRoute => inferInstanceAs (Decidable (nameOf "subscription" ∈ names.dropLast ∨
      ∃ pair ∈ names.zip names.tail, pair.1 = nameOf "payment" ∧ nameOf "initiate" <+: pair.2))
  | .alreadyUpdated | .noFetchCalls | .noPatternMatched => inferInstanceAs (Decidable False)

def pathRules : List SkipReason :=
  [.authRoute, .publicRoute, .emailRoute, .webhookRoute, .subscriptionRoute]

/-- Whether a word is a name between slashes, with the start of the next name behind it. -/
def Delimits (word : Text) (name start : Name) : Prop :=
  word.Ascii ∧ word.map Utf8.octetOf = slash :: (name ++ slash :: start) ∧ slash ∉ name ∧
    slash ∉ start

instance (word : Text) (name start : Name) : Decidable (Delimits word name start) :=
  inferInstanceAs (Decidable (word.Ascii ∧ _ = _ ∧ slash ∉ name ∧ slash ∉ start))

theorem holds_webhook_iff (place : Location) :
    Text.holds "webhook".toList (Text.lowerLatin place.path.shown) = true ↔
      ∃ name ∈ place, Mentions "webhook".toList name := by
  have shown : Text.lowerLatin place.path.shown =
      [] ++ '/' :: join '/' ((place.map Utf8.lossy).map Text.lowerLatin) := by
    rw [← Text.lowerLatin_join, ← Utf8.lossy_join, Path.shown, Location.path, Location.octets,
      Utf8.lossy_cons slash _ (by decide)]
    rfl
  rw [Text.holds_iff, shown, infix_append_cons_iff '/' _ _ _ (by decide) (by decide),
    infix_join_iff '/' _ (by decide) (by decide)]
  simp [Mentions]

section Places

variable (place : Location) (single : ∀ name ∈ place, slash ∉ name)

include single

theorem holds_path_iff (word : Text) (name start : Name) (delimits : Delimits word name start) :
    Text.holds word place.path.shown = true ↔
      ∃ pair ∈ place.zip place.tail, pair.1 = name ∧ start <+: pair.2 := by
  obtain ⟨ascii, spelled, nameSingle, startSingle⟩ := delimits
  rw [Text.holds_iff, Path.shown, Utf8.infix_lossy_iff word ascii, spelled]
  exact place.infix_octets_iff single name start nameSingle startSingle

theorem holds_directory_iff (word : Text) (name : Name) (delimits : Delimits word name []) :
    Text.holds word place.path.shown = true ↔ name ∈ place.dropLast := by
  rw [holds_path_iff place single word name [] delimits, mem_dropLast_iff]
  simp

theorem pathExclusion?_path :
    pathExclusion? place.path.shown = pathRules.find? fun reason => Applies place reason := by
  have auth : Text.holds "/auth/".toList place.path.shown = true ↔ Applies place .authRoute :=
    holds_directory_iff place single _ _ (by decide +kernel)
  have everyone : Text.holds "/public/".toList place.path.shown = true ↔
      Applies place .publicRoute :=
    holds_directory_iff place single _ _ (by decide +kernel)
  have email : Text.holds "/email/".toList place.path.shown = true ↔ Applies place .emailRoute :=
    holds_directory_iff place single _ _ (by decide +kernel)
  have webhook : Text.holds "webhook".toList (Text.lowerLatin place.path.shown) = true ↔
      Applies place .webhookRoute :=
    holds_webhook_iff place
  have subscription : (Text.holds "/subscription/".toList place.path.shown ||
      Text.holds "/payment/initiate".toList place.path.shown) = true ↔
      Applies place .subscriptionRoute := by
    rw [Bool.or_eq_true]
    apply or_congr
    · exact holds_directory_iff place single _ _ (by decide +kernel)
    · exact holds_path_iff place single _ _ _ (by decide +kernel)
  simp only [pathExclusion?, auth, everyone, email, webhook, subscription, pathRules,
    find?_cons_eq_ite (Applies place), List.find?_nil]

end Places

end Route

end RouteMigration
