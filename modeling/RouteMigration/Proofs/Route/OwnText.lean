import RouteMigration.Proofs.Route.Recognition

set_option autoImplicit false

namespace RouteMigration

namespace Route

namespace Edit

/-- An edit that puts nothing in: it keeps a character, or removes a cookie field. -/
def Own : Edit → Prop
  | .kept _ => True
  | .imported _ _ => False
  | .replaced rule _ => rule = .cookieField

def ClearOf (word : Text) (edit : Edit) : Prop :=
  Shape.avoids [.literal word] (edit.textAfter 5) = true

def Lone (steps : Nat) (edit : Edit) : Prop :=
  (∃ c, edit = .kept c) ∨ edit.textAfter steps = []

end Edit

theorem width?_word (word rest : Text) :
    Shape.width? [.literal word] (word ++ rest) = some word.length := by
  simp [Shape.width?, Piece.width?]

def staysClear (word : Text) : Bool :=
  [extractionMarker, helperCall].all fun text => Shape.avoids [.literal word] text

theorem clearOf_replaced (word : Text) (clear : staysClear word = true) (rule : Rule)
    (segment : Text) (marks : rule ≠ .cookieField) :
    (Edit.replaced rule segment).ClearOf word := by
  simp only [staysClear, List.all_cons, List.all_nil, Bool.and_true, Bool.and_eq_true] at clear
  simp only [Edit.ClearOf, Edit.textAfter, rule.step_le_five, if_true]
  cases rule with
  | cookieField => exact absurd rfl marks
  | cookieExtraction => exact clear.1
  | cookieHeaders => exact clear.2
  | jsonHeaders => exact clear.2

theorem own_or_clearOf (word : Text) (clear : staysClear word = true) (edit : Edit)
    (imports : ∀ before after, edit = .imported before after → edit.ClearOf word) :
    edit.Own ∨ edit.ClearOf word := by
  cases edit with
  | kept c => exact .inl trivial
  | imported before after => exact .inr (imports before after rfl)
  | replaced rule segment =>
    by_cases own : rule = .cookieField
    · exact .inl own
    · exact .inr (clearOf_replaced word clear rule segment own)

theorem apart_of_clearOf (word : Text) (edit : Edit) (clear : edit.ClearOf word) :
    Apart word (edit.textAfter 5) :=
  Shape.apart_of_avoids [.literal word] word _ (width?_word word) clear

theorem textAfter_own (edit : Edit) (own : edit.Own) :
    (∃ c, edit = .kept c) ∨ ((∃ segment, edit = .replaced .cookieField segment) ∧
      edit.textAfter 5 = []) := by
  cases edit with
  | kept c => exact .inl ⟨c, rfl⟩
  | imported before after => cases own
  | replaced rule segment =>
    obtain rfl : rule = .cookieField := own
    exact .inr ⟨⟨segment, rfl⟩, rfl⟩

theorem lone_of_own (edit : Edit) (own : edit.Own) : edit.Lone 5 :=
  (textAfter_own edit own).imp_right And.right

theorem own_of_lone (edit : Edit) (lone : edit.Lone 5) : edit.Own := by
  rcases lone with ⟨c, rfl⟩ | removed
  · trivial
  · cases edit with
    | kept c => trivial
    | imported before after =>
      have line := (List.append_eq_nil_iff.mp (List.append_eq_nil_iff.mp removed).1).2
      exact absurd line (by decide)
    | replaced rule segment =>
      simp only [Edit.textAfter, rule.step_le_five, if_true] at removed
      cases rule with
      | cookieField => rfl
      | cookieExtraction => exact absurd removed (by decide)
      | cookieHeaders => exact absurd removed (by decide)
      | jsonHeaders => exact absurd removed (by decide)

namespace Script

section Spelled

variable (steps : Nat) (word : Text)

theorem exists_start (c : Char) (script : Script)
    (clear : ∀ edit ∈ script, edit.Lone steps ∨ Apart (c :: word) (edit.textAfter steps))
    (before after : Text) (spelled : textAfter steps script = before ++ (c :: word ++ after)) :
    ∃ first later : Script, script = first ++ .kept c :: later ∧ textAfter steps first = before ∧
      textAfter steps later = word ++ after := by
  induction script generalizing before with
  | nil => simp [textAfter] at spelled
  | cons edit script ih =>
    have clearLater : ∀ other ∈ script,
        other.Lone steps ∨ Apart (c :: word) (other.textAfter steps) :=
      fun other member => clear other (List.mem_cons_of_mem _ member)
    rw [textAfter_cons] at spelled
    rcases List.append_eq_append_iff.mp spelled with
      ⟨between, rfl, rest⟩ | ⟨inside, text, rest⟩
    · obtain ⟨first, later, rfl, firstText, laterText⟩ := ih clearLater between rest
      exact ⟨edit :: first, later, rfl, by rw [textAfter_cons, firstText], laterText⟩
    by_cases ended : inside = []
    · subst ended
      rw [List.append_nil] at text
      obtain ⟨first, later, rfl, firstText, laterText⟩ := ih clearLater [] rest.symm
      exact ⟨edit :: first, later, rfl, by rw [textAfter_cons, firstText, text, List.append_nil],
        laterText⟩
    rcases clear edit (by simp) with (⟨kept, rfl⟩ | removed) | apart
    · rcases List.singleton_eq_append_iff.mp text with ⟨rfl, rfl⟩ | ⟨-, none⟩
      · simp only [List.cons_append, List.nil_append, List.cons.injEq] at rest
        obtain ⟨rfl, rest⟩ := rest
        exact ⟨[], script, rfl, rfl, rest.symm⟩
      · exact absurd none ended
    · rw [removed] at text
      exact absurd (List.append_eq_nil_iff.mp text.symm).2 ended
    · exact absurd rest (apart.unstarted before inside after _ text ended)

theorem exists_end (read ahead : Text) (script : Script)
    (clear : ∀ edit ∈ script, edit.Lone steps ∨ Apart (read ++ ahead) (edit.textAfter steps))
    (after : Text) (spelled : textAfter steps script = ahead ++ after) :
    ∃ middle last : Script, script = middle ++ last ∧ textAfter steps middle = ahead ∧
      textAfter steps last = after ∧ (∀ edit ∈ middle, edit.Lone steps) ∧
      ∀ edit, middle.getLast? = some edit → edit.textAfter steps ≠ [] := by
  induction script generalizing read ahead with
  | nil =>
    obtain ⟨rfl, rfl⟩ := List.append_eq_nil_iff.mp spelled.symm
    exact ⟨[], [], rfl, rfl, rfl, by simp, by simp⟩
  | cons edit script ih =>
    by_cases done : ahead = []
    · subst done
      exact ⟨[], edit :: script, rfl, rfl, spelled, by simp, by simp⟩
    have clearLater : ∀ other ∈ script,
        other.Lone steps ∨ Apart (read ++ ahead) (other.textAfter steps) :=
      fun other member => clear other (List.mem_cons_of_mem _ member)
    rw [textAfter_cons] at spelled
    rcases clear edit (by simp) with (⟨kept, rfl⟩ | removed) | apart
    · cases ahead with
      | nil => exact absurd rfl done
      | cons c ahead =>
        simp only [Edit.textAfter, List.cons_append, List.nil_append, List.cons.injEq] at spelled
        obtain ⟨rfl, spelled⟩ := spelled
        obtain ⟨middle, last, rfl, middleText, lastText, lone, ends⟩ :=
          ih (read ++ [kept]) ahead (by simpa using clearLater) spelled
        refine ⟨.kept kept :: middle, last, rfl, ?_, lastText, ?_, ?_⟩
        · rw [textAfter_cons, middleText]
          rfl
        · simpa using ⟨.inl ⟨kept, rfl⟩, lone⟩
        · intro edit final
          cases middle with
          | nil =>
            cases final
            simp [Edit.textAfter]
          | cons next middle => exact ends edit (by simpa using final)
    · rw [removed, List.nil_append] at spelled
      obtain ⟨middle, last, rfl, middleText, lastText, lone, ends⟩ :=
        ih read ahead clearLater spelled
      refine ⟨edit :: middle, last, rfl, ?_, lastText, ?_, ?_⟩
      · rw [textAfter_cons, removed, middleText, List.nil_append]
      · simpa using ⟨.inr removed, lone⟩
      · intro other final
        cases middle with
        | nil => exact absurd middleText.symm done
        | cons next middle => exact ends other (by simpa using final)
    · exact absurd spelled (apart.unreached read ahead after _ rfl done)

theorem exists_lone (c : Char) (script : Script)
    (clear : ∀ edit ∈ script, edit.Lone steps ∨ Apart (c :: word) (edit.textAfter steps))
    (before after : Text) (spelled : textAfter steps script = before ++ (c :: word ++ after)) :
    ∃ first middle last : Script, script = first ++ (.kept c :: middle ++ last) ∧
      textAfter steps first = before ∧ textAfter steps middle = word ∧
      textAfter steps last = after ∧ (∀ edit ∈ middle, edit.Lone steps) ∧
      ∀ edit, middle.getLast? = some edit → edit.textAfter steps ≠ [] := by
  obtain ⟨first, later, rfl, firstText, laterText⟩ :=
    exists_start steps word c script clear before after spelled
  obtain ⟨middle, last, rfl, middleText, lastText, lone, ends⟩ :=
    exists_end steps [c] word later (fun edit member => clear edit (by simp [member])) after
      laterText
  exact ⟨first, middle, last, rfl, firstText, middleText, lastText, lone, ends⟩

theorem exists_own (c : Char) (script : Script)
    (clear : ∀ edit ∈ script, edit.Own ∨ edit.ClearOf (c :: word)) (before after : Text)
    (spelled : textAfter 5 script = before ++ (c :: word ++ after)) :
    ∃ first middle last : Script, script = first ++ (.kept c :: middle ++ last) ∧
      textAfter 5 first = before ∧ textAfter 5 middle = word ∧ textAfter 5 last = after ∧
      ∀ edit ∈ middle, edit.Own := by
  obtain ⟨first, middle, last, cut, firstText, middleText, lastText, lone, -⟩ :=
    exists_lone 5 word c script
      (fun edit member => (clear edit member).imp (lone_of_own edit) (apart_of_clearOf _ edit))
      before after spelled
  exact ⟨first, middle, last, cut, firstText, middleText, lastText,
    fun edit member => own_of_lone edit (lone edit member)⟩

end Spelled

theorem eq_kept (script : Script) (owned : ∀ edit ∈ script, edit.Own)
    (whole : ∀ segment, Edit.replaced .cookieField segment ∉ script) :
    script = (script.textAfter 5).map .kept := by
  induction script with
  | nil => rfl
  | cons edit script ih =>
    have rest := ih (fun other member => owned other (List.mem_cons_of_mem _ member))
      (fun segment member => whole segment (List.mem_cons_of_mem _ member))
    rcases textAfter_own edit (owned edit (by simp)) with ⟨c, rfl⟩ | ⟨⟨segment, rfl⟩, -⟩
    · rw [textAfter_cons, List.map_append, ← rest]
      rfl
    · exact absurd (List.mem_cons_self ..) (whole segment)

end Script

end Route

end RouteMigration
