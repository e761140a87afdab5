import RouteMigration.Text.Basic

set_option autoImplicit false

namespace RouteMigration

abbrev Octets := List UInt8

namespace Utf8

def encode (text : Text) : ByteArray :=
  (String.ofList text).toUTF8

def decode? (data : ByteArray) : Option Text :=
  (String.fromUTF8? data).map String.toList

theorem encode_decode (data : ByteArray) (text : Text) (decoded : decode? data = some text) :
    encode text = data := by
  simp only [decode?, String.fromUTF8?] at decoded
  split at decoded
  next valid =>
    simp only [Option.map_some, Option.some.injEq] at decoded
    subst decoded
    simp [encode, String.fromUTF8]
  next => simp at decoded

def encodeOctets (text : Text) : Octets :=
  (encode text).data.toList

def decodeOctets? (octets : Octets) : Option Text :=
  decode? ⟨octets.toArray⟩

/-- The value's leading bits, how many octets follow, and the range of the next one. -/
structure Opening where
  bits : Nat
  following : Nat
  low : UInt8 := 0x80
  high : UInt8 := 0xBF

-- The narrowed ranges shut out overlong forms, surrogates and values above U+10FFFF.
def opening? (first : UInt8) : Option Opening :=
  if 0xC2 ≤ first ∧ first ≤ 0xDF then some { bits := first.toNat - 0xC0, following := 1 }
  else if first = 0xE0 then some { bits := 0, following := 2, low := 0xA0 }
  else if first = 0xED then some { bits := 0xD, following := 2, high := 0x9F }
  else if 0xE1 ≤ first ∧ first ≤ 0xEF then some { bits := first.toNat - 0xE0, following := 2 }
  else if first = 0xF0 then some { bits := 0, following := 3, low := 0x90 }
  else if first = 0xF4 then some { bits := 4, following := 3, high := 0x8F }
  else if 0xF1 ≤ first ∧ first ≤ 0xF3 then some { bits := first.toNat - 0xF0, following := 3 }
  else none

def complete (low high : UInt8) (value taken : Nat) : Nat → Octets → Option Char × Nat
  | 0, _ => (some (Char.ofNat value), taken)
  | _ + 1, [] => (none, taken)
  | following + 1, octet :: rest =>
    if low ≤ octet ∧ octet ≤ high then
      complete 0x80 0xBF (value * 64 + (octet.toNat - 0x80)) (taken + 1) following rest
    else (none, taken)

def firstUnit (first : UInt8) (rest : Octets) : Option Char × Nat :=
  if first < 0x80 then (some (Char.ofNat first.toNat), 0)
  else
    match opening? first with
    | none => (none, 0)
    | some start => complete start.low start.high start.bits 0 start.following rest

/-- The characters and the malformed parts of octets, after the first `passed` octets. -/
def units : Nat → Octets → List (Option Char)
  | _, [] => []
  | passed + 1, _ :: rest => units passed rest
  | 0, octet :: rest =>
    let unit := firstUnit octet rest
    unit.1 :: units unit.2 rest

def replacementCharacter : Char := Char.ofNat 0xFFFD

def lossy (octets : Octets) : Text :=
  (units 0 octets).map fun unit => unit.getD replacementCharacter

end Utf8

end RouteMigration
