import RouteMigration.Text.Blank

set_option autoImplicit false

namespace RouteMigration

inductive Piece where
  | literal (text : Text)
  | quoteMark
  | blanks
  -- Everything up to the next semicolon of the line, and the semicolon.
  | statementEnd
  deriving DecidableEq

abbrev Shape := List Piece

def isQuoteMark (c : Char) : Bool :=
  c == '"' || c == '\''

def isBeforeStatementEnd (c : Char) : Bool :=
  c != ';' && c != '\n'

-- A run of blanks is measured whole: in every shape what follows it is not blank.
def Piece.width? : Piece → Text → Option Nat
  | .literal expected, text => if expected.isPrefixOf text then some expected.length else none
  | .quoteMark, [] => none
  | .quoteMark, c :: _ => if isQuoteMark c then some 1 else none
  | .blanks, text => some (text.takeWhile isBlank).length
  | .statementEnd, text =>
    let lead := (text.takeWhile isBeforeStatementEnd).length
    if (text.drop lead).head? = some ';' then some (lead + 1) else none

def Shape.width? : Shape → Text → Option Nat
  | [], _ => some 0
  | piece :: later, text =>
    (piece.width? text).bind fun width =>
      (Shape.width? later (text.drop width)).map fun rest => width + rest

def Piece.Spells : Piece → Text → Prop
  | .literal expected, text => text = expected
  | .quoteMark, text => text = ['"'] ∨ text = ['\'']
  | .blanks, text => ∀ c ∈ text, isBlank c = true
  | .statementEnd, text => ∃ lead, text = lead ++ [';'] ∧ '\n' ∉ lead

def Shape.Spells : Shape → Text → Prop
  | [], text => text = []
  | piece :: later, text =>
    ∃ head rest, text = head ++ rest ∧ piece.Spells head ∧ Shape.Spells later rest

theorem Piece.width?_le (piece : Piece) (text : Text) (width : Nat)
    (measured : piece.width? text = some width) : width ≤ text.length := by
  cases piece with
  | literal expected =>
    simp only [Piece.width?, Option.ite_none_right_eq_some, Option.some.injEq] at measured
    obtain ⟨found, rfl⟩ := measured
    exact (List.isPrefixOf_iff_prefix.mp found).length_le
  | quoteMark =>
    cases text with
    | nil => simp [Piece.width?] at measured
    | cons c rest =>
      simp only [Piece.width?, Option.ite_none_right_eq_some, Option.some.injEq] at measured
      simp [← measured.2]
  | blanks =>
    simp only [Piece.width?, Option.some.injEq] at measured
    subst measured
    exact (List.takeWhile_prefix isBlank).length_le
  | statementEnd =>
    simp only [Piece.width?, Option.ite_none_right_eq_some, Option.some.injEq] at measured
    obtain ⟨closed, rfl⟩ := measured
    have longer : ¬ text.length ≤ (text.takeWhile isBeforeStatementEnd).length := by
      intro short
      simp [List.drop_of_length_le short] at closed
    omega

theorem take_statementEnd (text : Text)
    (closed : (text.drop (text.takeWhile isBeforeStatementEnd).length).head? = some ';') :
    text.take ((text.takeWhile isBeforeStatementEnd).length + 1) =
      text.takeWhile isBeforeStatementEnd ++ [';'] := by
  rw [List.head?_drop] at closed
  rw [List.take_add_one, closed,
    ← List.prefix_iff_eq_take.mp (List.takeWhile_prefix isBeforeStatementEnd)]
  rfl

theorem Piece.spells_take (piece : Piece) (text : Text) (width : Nat)
    (measured : piece.width? text = some width) : piece.Spells (text.take width) := by
  cases piece with
  | literal expected =>
    simp only [Piece.width?, Option.ite_none_right_eq_some, Option.some.injEq] at measured
    obtain ⟨found, rfl⟩ := measured
    exact (List.prefix_iff_eq_take.mp (List.isPrefixOf_iff_prefix.mp found)).symm
  | quoteMark =>
    cases text with
    | nil => simp [Piece.width?] at measured
    | cons c rest =>
      simp only [Piece.width?, Option.ite_none_right_eq_some, Option.some.injEq] at measured
      obtain ⟨quoted, rfl⟩ := measured
      simpa [Piece.Spells, isQuoteMark] using quoted
  | blanks =>
    simp only [Piece.width?, Option.some.injEq] at measured
    subst measured
    intro c member
    rw [← List.prefix_iff_eq_take.mp (List.takeWhile_prefix isBlank)] at member
    exact List.all_eq_true.mp List.all_takeWhile c member
  | statementEnd =>
    simp only [Piece.width?, Option.ite_none_right_eq_some, Option.some.injEq] at measured
    obtain ⟨closed, rfl⟩ := measured
    refine ⟨text.takeWhile isBeforeStatementEnd, take_statementEnd text closed, ?_⟩
    intro member
    have before := List.all_eq_true.mp List.all_takeWhile _ member
    simp [isBeforeStatementEnd] at before

theorem Shape.width?_le (shape : Shape) (text : Text) (width : Nat)
    (measured : shape.width? text = some width) : width ≤ text.length := by
  induction shape generalizing text width with
  | nil =>
    simp only [Shape.width?, Option.some.injEq] at measured
    omega
  | cons piece later ih =>
    simp only [Shape.width?, Option.bind_eq_some_iff, Option.map_eq_some_iff] at measured
    obtain ⟨first, firstMeasured, rest, restMeasured, rfl⟩ := measured
    have firstFits := piece.width?_le text first firstMeasured
    have restFits := ih (text.drop first) rest restMeasured
    simp only [List.length_drop] at restFits
    omega

theorem Shape.spells_take (shape : Shape) (text : Text) (width : Nat)
    (measured : shape.width? text = some width) : shape.Spells (text.take width) := by
  induction shape generalizing text width with
  | nil =>
    simp only [Shape.width?, Option.some.injEq] at measured
    simp [Shape.Spells, ← measured]
  | cons piece later ih =>
    simp only [Shape.width?, Option.bind_eq_some_iff, Option.map_eq_some_iff] at measured
    obtain ⟨first, firstMeasured, rest, restMeasured, rfl⟩ := measured
    exact ⟨text.take first, (text.drop first).take rest, List.take_add,
      piece.spells_take text first firstMeasured, ih (text.drop first) rest restMeasured⟩

end RouteMigration
