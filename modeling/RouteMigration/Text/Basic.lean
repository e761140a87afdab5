set_option autoImplicit false

namespace RouteMigration

abbrev Text := List Char

def split {A : Type} [DecidableEq A] (mark : A) (items : List A) : List (List A) :=
  items.foldr
    (fun item pieces =>
      if item = mark then [] :: pieces
      else
        match pieces with
        | [] => [[item]]
        | piece :: later => (item :: piece) :: later)
    [[]]

def join {A : Type} (mark : A) (pieces : List (List A)) : List A :=
  [mark].intercalate pieces

theorem split_ne_nil {A : Type} [DecidableEq A] (mark : A) (items : List A) :
    split mark items ≠ [] := by
  cases items with
  | nil => simp [split]
  | cons item rest =>
    simp only [split, List.foldr_cons]
    split
    · simp
    · split <;> simp

theorem join_cons_cons {A : Type} (mark : A) (piece next : List A) (later : List (List A)) :
    join mark (piece :: next :: later) = piece ++ mark :: join mark (next :: later) := by
  simp [join, List.intercalate, List.intersperse]

theorem join_cons_head {A : Type} (mark item : A) (piece : List A) (later : List (List A)) :
    join mark ((item :: piece) :: later) = item :: join mark (piece :: later) := by
  cases later <;> simp [join, List.intercalate, List.intersperse]

theorem split_cons {A : Type} [DecidableEq A] (mark item : A) (rest : List A) :
    split mark (item :: rest) =
      if item = mark then [] :: split mark rest
      else
        match split mark rest with
        | [] => [[item]]
        | piece :: later => (item :: piece) :: later := rfl

theorem split_append_cons {A : Type} [DecidableEq A] (mark : A) (first second : List A) :
    split mark (first ++ mark :: second) = split mark first ++ split mark second := by
  induction first with
  | nil => simp [split]
  | cons item rest ih =>
    rw [List.cons_append, split_cons, split_cons, ih]
    cases pieces : split mark rest with
    | nil => exact absurd pieces (split_ne_nil mark rest)
    | cons piece later => by_cases same : item = mark <;> simp [same]

theorem join_split {A : Type} [DecidableEq A] (mark : A) (items : List A) :
    join mark (split mark items) = items := by
  induction items with
  | nil => simp [split, join, List.intercalate]
  | cons item rest ih =>
    rw [split_cons]
    cases pieces : split mark rest with
    | nil => exact absurd pieces (split_ne_nil mark rest)
    | cons piece later =>
      rw [pieces] at ih
      by_cases same : item = mark
      · simp [same, join_cons_cons, ih]
      · simp [same, join_cons_head, ih]

namespace Text

def holds (part : Text) : Text → Bool
  | [] => part.isEmpty
  | c :: rest => part.isPrefixOf (c :: rest) || holds part rest

theorem holds_iff (part text : Text) : holds part text = true ↔ part <:+: text := by
  induction text with
  | nil => simp [holds]
  | cons c rest ih => simp [holds, ih, List.infix_cons_iff]

def ofNat (number : Nat) : Text :=
  Nat.toDigits 10 number

end Text

end RouteMigration
