import RouteMigration.Text.Basic

set_option autoImplicit false

namespace RouteMigration

theorem join_append {A : Type} (mark : A) (first second : List (List A)) (filled : first ≠ [])
    (more : second ≠ []) :
    join mark (first ++ second) = join mark first ++ mark :: join mark second := by
  induction first with
  | nil => exact absurd rfl filled
  | cons piece later ih =>
    cases later with
    | nil =>
      obtain ⟨next, others, rfl⟩ := List.exists_cons_of_ne_nil more
      rw [List.singleton_append, join_cons_cons]
      simp [join, List.intercalate]
    | cons next later =>
      rw [List.cons_append, List.cons_append, join_cons_cons, join_cons_cons, ← List.cons_append,
        ih (by simp), List.append_assoc, List.cons_append]

theorem join_cons {A : Type} (mark : A) (piece : List A) (later : List (List A)) :
    join mark (piece :: later) = piece ++ later.flatMap (mark :: ·) := by
  induction later generalizing piece with
  | nil => simp [join, List.intercalate]
  | cons next later ih => rw [join_cons_cons, ih, List.flatMap_cons, List.cons_append]

theorem join_around {A : Type} (mark : A) (before : List (List A)) (piece : List A)
    (later : List (List A)) : join mark (before ++ piece :: later) =
      before.flatMap (· ++ [mark]) ++ (piece ++ later.flatMap (mark :: ·)) := by
  induction before with
  | nil => exact join_cons mark piece later
  | cons first before ih =>
    obtain ⟨next, rest, more⟩ :=
      List.exists_cons_of_ne_nil (List.append_ne_nil_of_right_ne_nil before (List.cons_ne_nil piece later))
    rw [List.cons_append, more, join_cons_cons, ← more, ih]
    simp

theorem map_join {A B : Type} (change : List A → List B) (mark : A) (other : B)
    (void : change [] = [])
    (apart : ∀ first second, change (first ++ mark :: second) = change first ++ other :: change second)
    (pieces : List (List A)) : change (join mark pieces) = join other (pieces.map change) := by
  induction pieces with
  | nil => exact void
  | cons piece later ih =>
    cases later with
    | nil => simp [join, List.intercalate]
    | cons next later =>
      rw [List.map_cons, List.map_cons, join_cons_cons, join_cons_cons, apart, ih, List.map_cons]

theorem join_head_append {A : Type} (mark : A) (lead piece : List A) (later : List (List A)) :
    join mark ((lead ++ piece) :: later) = lead ++ join mark (piece :: later) := by
  induction lead with
  | nil => rfl
  | cons item lead ih => rw [List.cons_append, join_cons_head, ih, List.cons_append]

theorem split_of_not_mem {A : Type} [DecidableEq A] (mark : A) (items : List A)
    (unmarked : mark ∉ items) : split mark items = [items] := by
  induction items with
  | nil => rfl
  | cons item rest ih =>
    simp only [List.mem_cons, not_or] at unmarked
    simp [split_cons, ih unmarked.2, Ne.symm unmarked.1]

theorem not_mem_of_mem_split {A : Type} [DecidableEq A] (mark : A) (items piece : List A)
    (member : piece ∈ split mark items) : mark ∉ piece := by
  induction items generalizing piece with
  | nil => simp_all [split]
  | cons item rest ih =>
    obtain ⟨first, later, pieces⟩ := List.exists_cons_of_ne_nil (split_ne_nil mark rest)
    rw [split_cons, pieces] at member
    rw [pieces] at ih
    by_cases same : item = mark
    · simp only [same, if_true, List.mem_cons] at member
      rcases member with rfl | other
      · simp
      · exact ih piece (List.mem_cons.mpr other)
    · simp only [same, if_false, List.mem_cons] at member
      rcases member with rfl | other
      · simpa [Ne.symm same] using ih first (by simp)
      · exact ih piece (List.mem_cons_of_mem _ other)

theorem split_join {A : Type} [DecidableEq A] (mark : A) (pieces : List (List A))
    (nonempty : pieces ≠ []) (unmarked : ∀ piece ∈ pieces, mark ∉ piece) :
    split mark (join mark pieces) = pieces := by
  induction pieces with
  | nil => exact absurd rfl nonempty
  | cons piece later ih =>
    have first := split_of_not_mem mark piece (unmarked piece (by simp))
    cases later with
    | nil => simpa [join, List.intercalate] using first
    | cons next later =>
      rw [join_cons_cons, split_append_cons, first, ih (by simp)]
      · rfl
      · exact fun other member => unmarked other (List.mem_cons_of_mem _ member)

theorem exists_split_concat {A : Type} [DecidableEq A] (mark item : A) (items : List A)
    (unmarked : item ≠ mark) :
    ∃ pieces last, split mark (items ++ [item]) = pieces ++ [last ++ [item]] := by
  induction items with
  | nil => exact ⟨[], [], by simp [split, unmarked]⟩
  | cons head rest ih =>
    obtain ⟨pieces, last, split⟩ := ih
    rw [List.cons_append, split_cons, split]
    by_cases same : head = mark
    · exact ⟨[] :: pieces, last, by simp [same]⟩
    · cases pieces with
      | nil => exact ⟨[], head :: last, by simp [same]⟩
      | cons piece pieces => exact ⟨(head :: piece) :: pieces, last, by simp [same]⟩

theorem exists_split_append {A : Type} [DecidableEq A] (mark : A) (lead rest : List A)
    (unmarked : mark ∉ lead) :
    ∃ more later, split mark (lead ++ rest) = (lead ++ more) :: later := by
  induction lead with
  | nil => exact List.exists_cons_of_ne_nil (split_ne_nil mark rest)
  | cons item lead ih =>
    rw [List.mem_cons, not_or] at unmarked
    obtain ⟨more, later, pieces⟩ := ih unmarked.2
    refine ⟨more, later, ?_⟩
    rw [List.cons_append, split_cons, pieces, if_neg (Ne.symm unmarked.1)]
    rfl

theorem getLast?_join {A : Type} (mark : A) (before : List (List A)) (last : List A)
    (filled : last ≠ []) : (join mark (before ++ [last])).getLast? = last.getLast? := by
  obtain ⟨lead, item, concat⟩ := (List.eq_nil_or_concat last).resolve_left filled
  rw [List.concat_eq_append] at concat
  subst concat
  by_cases alone : before = []
  · simp [alone, join, List.intercalate]
  · rw [join_append mark _ _ alone (by simp), List.getLast?_append, List.getLast?_cons]
    simp [join, List.intercalate]

theorem infix_append_cons_iff {A : Type} (mark : A) (word first second : List A)
    (filled : word ≠ []) (unmarked : mark ∉ word) :
    word <:+: first ++ mark :: second ↔ word <:+: first ∨ word <:+: second := by
  constructor
  · rintro ⟨before, after, same⟩
    rw [List.append_assoc, List.append_eq_append_iff] at same
    rcases same with ⟨rest, rfl, same⟩ | ⟨rest, rfl, same⟩
    · rw [List.append_eq_append_iff] at same
      rcases same with ⟨more, rfl, -⟩ | ⟨more, rfl, same⟩
      · exact .inl ⟨before, more, by rw [List.append_assoc]⟩
      · cases more with
        | nil => exact .inl ⟨before, [], by simp⟩
        | cons item more =>
          cases same
          exact absurd (by simp) unmarked
    · cases rest with
      | nil =>
        obtain ⟨item, word, rfl⟩ := List.exists_cons_of_ne_nil filled
        cases same
        exact absurd (by simp) unmarked
      | cons item rest =>
        cases same
        exact .inr ⟨rest, after, List.append_assoc _ _ _⟩
  · rintro (left | right)
    · exact left.trans (List.prefix_append _ _).isInfix
    · exact right.trans ((List.suffix_cons mark second).trans (List.suffix_append _ _)).isInfix

theorem infix_join_iff {A : Type} (mark : A) (word : List A) (filled : word ≠ [])
    (unmarked : mark ∉ word) (pieces : List (List A)) :
    word <:+: join mark pieces ↔ ∃ piece ∈ pieces, word <:+: piece := by
  induction pieces with
  | nil => simp [join, List.intercalate, filled]
  | cons piece later ih =>
    cases later with
    | nil => simp [join, List.intercalate]
    | cons next later =>
      rw [join_cons_cons, infix_append_cons_iff mark word _ _ filled unmarked, ih]
      simp

end RouteMigration
