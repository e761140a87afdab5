import Mathlib
import RouteMigration.Text.Utf8

set_option autoImplicit false

namespace RouteMigration

def Text.Ascii (text : Text) : Prop :=
  ∀ c ∈ text, 0 < c.toNat ∧ c.toNat < 0x80

instance (text : Text) : Decidable text.Ascii :=
  List.decidableBAll (fun c : Char => 0 < c.toNat ∧ c.toNat < 0x80) text

namespace Utf8

def octetOf (c : Char) : UInt8 :=
  UInt8.ofNat c.toNat

theorem complete_append (low high : UInt8) (value taken following : Nat) (first : Octets)
    (octet : UInt8) (rest : Octets) (ascii : octet < 0x80) (outside : 0x80 ≤ low) :
    complete low high value taken following (first ++ octet :: rest) =
      complete low high value taken following first := by
  induction following generalizing low high value taken first with
  | zero => rfl
  | succ following ih =>
    cases first with
    | nil =>
      have short : ¬ low ≤ octet := UInt8.not_le.mpr (UInt8.lt_of_lt_of_le ascii outside)
      simp [complete, short]
    | cons next first =>
      simp only [List.cons_append, complete]
      split
      · exact ih _ _ _ _ first (UInt8.le_refl _)
      · rfl

theorem complete_le (low high : UInt8) (value taken following : Nat) (octets : Octets) :
    (complete low high value taken following octets).2 ≤ taken + octets.length := by
  induction following generalizing low high value taken octets with
  | zero => simp [complete]
  | succ following ih =>
    cases octets with
    | nil => simp [complete]
    | cons next rest =>
      rw [complete]
      split
      · have later := ih 0x80 0xBF (value * 64 + (next.toNat - 0x80)) (taken + 1) rest
        rw [List.length_cons]
        omega
      · simp

theorem complete_value (low high : UInt8) (value taken following : Nat) (octets : Octets) (c : Char)
    (whole : (complete low high value taken (following + 1) octets).1 = some c) :
    ∃ number, c = Char.ofNat number ∧
      (value * 64 + (low.toNat - 0x80)) * 64 ^ following ≤ number := by
  induction following generalizing low high value taken octets with
  | zero =>
    cases octets with
    | nil => cases whole
    | cons next rest =>
      rw [complete] at whole
      split at whole
      next within =>
        have above := UInt8.le_iff_toNat_le.mp within.1
        refine ⟨_, (Option.some.inj whole).symm, ?_⟩
        rw [Nat.pow_zero]
        omega
      next => cases whole
  | succ following ih =>
    cases octets with
    | nil => cases whole
    | cons next rest =>
      rw [complete] at whole
      split at whole
      next within =>
        have above := UInt8.le_iff_toNat_le.mp within.1
        obtain ⟨number, same, bound⟩ := ih _ _ _ _ rest whole
        refine ⟨number, same, Nat.le_trans ?_ bound⟩
        rw [Nat.pow_succ', ← Nat.mul_assoc]
        apply Nat.mul_le_mul_right
        omega
      next => cases whole

theorem opening?_bounds (first : UInt8) (start : Opening) (opens : opening? first = some start) :
    0x80 ≤ start.low ∧ ∃ more, start.following = more + 1 ∧
      0x80 ≤ (start.bits * 64 + (start.low.toNat - 0x80)) * 64 ^ more := by
  unfold opening? at opens
  repeat' split at opens
  all_goals
    first
    | obtain rfl := Option.some.inj opens
    | cases opens
  next range =>
    have above : 0xC2 ≤ first.toNat := UInt8.le_iff_toNat_le.mp range.1
    refine ⟨UInt8.le_refl _, 0, rfl, ?_⟩
    simp only [Nat.pow_zero, Nat.mul_one]
    omega
  next => exact ⟨by decide, 1, rfl, by decide⟩
  next => exact ⟨by decide, 1, rfl, by decide⟩
  next range =>
    have above : 0xE1 ≤ first.toNat := UInt8.le_iff_toNat_le.mp range.1
    refine ⟨UInt8.le_refl _, 1, rfl, ?_⟩
    simp only [Nat.pow_one]
    omega
  next => exact ⟨by decide, 2, rfl, by decide⟩
  next => exact ⟨by decide, 2, rfl, by decide⟩
  next range =>
    have above : 0xF1 ≤ first.toNat := UInt8.le_iff_toNat_le.mp range.1
    refine ⟨UInt8.le_refl _, 2, rfl, ?_⟩
    simp only [Nat.reducePow]
    omega

theorem firstUnit_append (first : UInt8) (rest : Octets) (octet : UInt8) (later : Octets)
    (ascii : octet < 0x80) : firstUnit first (rest ++ octet :: later) = firstUnit first rest := by
  unfold firstUnit
  cases opens : opening? first with
  | none => rfl
  | some start =>
    have outside := (opening?_bounds first start opens).1
    simp only [complete_append _ _ _ _ _ _ _ later ascii outside]

theorem firstUnit_le (first : UInt8) (rest : Octets) : (firstUnit first rest).2 ≤ rest.length := by
  unfold firstUnit
  split
  · exact Nat.zero_le _
  · cases opening? first with
    | none => exact Nat.zero_le _
    | some start => simpa using complete_le start.low start.high start.bits 0 start.following rest

theorem units_append_cons (passed : Nat) (first : Octets) (octet : UInt8) (rest : Octets)
    (within : passed ≤ first.length) (ascii : octet < 0x80) :
    units passed (first ++ octet :: rest) = units passed first ++ units 0 (octet :: rest) := by
  induction first generalizing passed with
  | nil =>
    obtain rfl : passed = 0 := Nat.le_zero.mp within
    rfl
  | cons next first ih =>
    cases passed with
    | zero =>
      -- What the first character takes ends before the ASCII octet.
      have taken := firstUnit_le next first
      simp only [List.cons_append, units, firstUnit_append next first octet rest ascii, ih _ taken]
    | succ passed => exact ih passed (Nat.le_of_succ_le_succ within)

theorem lossy_append_cons (first : Octets) (octet : UInt8) (rest : Octets) (ascii : octet < 0x80) :
    lossy (first ++ octet :: rest) = lossy first ++ lossy (octet :: rest) := by
  rw [lossy, units_append_cons 0 first octet rest (Nat.zero_le _) ascii, List.map_append]
  rfl

theorem lossy_cons (octet : UInt8) (rest : Octets) (ascii : octet < 0x80) :
    lossy (octet :: rest) = Char.ofNat octet.toNat :: lossy rest := by
  simp [lossy, units, firstUnit, ascii]

theorem octetOf_lt (c : Char) (plain : c.toNat < 0x80) : octetOf c < 0x80 := by
  rw [UInt8.lt_iff_toNat_lt, octetOf, UInt8.toNat_ofNat', Nat.mod_eq_of_lt (by omega)]
  exact plain

theorem eq_ofNat_iff (octet : UInt8) (ascii : octet < 0x80) (c : Char) (plain : c.toNat < 0x80) :
    c = Char.ofNat octet.toNat ↔ octetOf c = octet := by
  have small : octet.toNat < 0x80 := UInt8.lt_iff_toNat_lt.mp ascii
  constructor
  · rintro rfl
    have valid : octet.toNat.isValidChar := .inl (by omega)
    rw [octetOf, Char.toNat_ofNat, if_pos valid, UInt8.ofNat_toNat]
  · rintro rfl
    rw [octetOf, UInt8.toNat_ofNat', Nat.mod_eq_of_lt (by omega), Char.ofNat_toNat]

theorem not_ascii_firstUnit (octet : UInt8) (rest : Octets) (long : ¬ octet < 0x80) (c : Char)
    (shown : c = (firstUnit octet rest).1.getD replacementCharacter) :
    c.toNat = 0 ∨ 0x80 ≤ c.toNat := by
  rw [firstUnit, if_neg long] at shown
  cases opens : opening? octet with
  | none =>
    simp only [opens, Option.getD_none] at shown
    subst shown
    decide
  | some start =>
    obtain ⟨-, more, following, least⟩ := opening?_bounds octet start opens
    simp only [opens, following] at shown
    cases whole : (complete start.low start.high start.bits 0 (more + 1) rest).1 with
    | none =>
      rw [whole, Option.getD_none] at shown
      subst shown
      decide
    | some d =>
      obtain ⟨number, rfl, bound⟩ := complete_value _ _ _ _ _ _ _ whole
      rw [whole, Option.getD_some] at shown
      rw [shown, Char.toNat_ofNat]
      split
      · exact .inr (Nat.le_trans least bound)
      · exact .inl rfl

theorem prefix_lossy_iff (word : Text) (ascii : word.Ascii) (octets : Octets) :
    word <+: lossy octets ↔ word.map octetOf <+: octets := by
  induction word generalizing octets with
  | nil => simp
  | cons c word ih =>
    have plain := ascii c (by simp)
    have later : Text.Ascii word := fun d member => ascii d (List.mem_cons_of_mem _ member)
    cases octets with
    | nil => simp [lossy, units]
    | cons octet rest =>
      by_cases single : octet < 0x80
      · rw [lossy_cons octet rest single, List.map_cons, List.cons_prefix_cons,
          List.cons_prefix_cons, ih later, eq_ofNat_iff octet single c plain.2]
      · constructor
        · intro begins
          rw [lossy, units, List.map_cons, List.cons_prefix_cons] at begins
          have long := not_ascii_firstUnit octet rest single c begins.1
          omega
        · intro begins
          rw [List.map_cons, List.cons_prefix_cons] at begins
          exact absurd (begins.1 ▸ octetOf_lt c plain.2) single

theorem infix_of_infix_units (word : Text) (ascii : word.Ascii) (passed : Nat) (octets : Octets)
    (shown : word <:+: (units passed octets).map fun unit => unit.getD replacementCharacter) :
    word.map octetOf <:+: octets := by
  induction octets generalizing passed with
  | nil =>
    have void : word = [] := by cases passed <;> simpa [units] using shown
    simp [void]
  | cons octet rest ih =>
    cases passed with
    | succ passed => exact (ih passed shown).trans (List.suffix_cons octet rest).isInfix
    | zero =>
      rw [units, List.map_cons, List.infix_cons_iff] at shown
      rcases shown with begins | later
      · exact ((prefix_lossy_iff word ascii (octet :: rest)).mp begins).isInfix
      · exact (ih _ later).trans (List.suffix_cons octet rest).isInfix

theorem infix_lossy_iff (word : Text) (ascii : word.Ascii) (octets : Octets) :
    word <:+: lossy octets ↔ word.map octetOf <:+: octets := by
  constructor
  · exact infix_of_infix_units word ascii 0 octets
  · rintro ⟨before, after, rfl⟩
    cases word with
    | nil => exact List.nil_infix
    | cons c word =>
      have single := octetOf_lt c (ascii c (by simp)).2
      have begins : (c :: word) <+: lossy ((c :: word).map octetOf ++ after) :=
        (prefix_lossy_iff _ ascii _).mpr (List.prefix_append _ _)
      rw [List.append_assoc]
      rw [List.map_cons, List.cons_append] at begins ⊢
      rw [lossy_append_cons before (octetOf c) _ single]
      exact begins.isInfix.trans (List.suffix_append _ _).isInfix

end Utf8

end RouteMigration
