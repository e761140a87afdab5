import RouteMigration.Migration.Reading

set_option autoImplicit false

namespace RouteMigration

namespace Utf8

theorem decode_encode (text : Text) : decode? (encode text) = some text := by
  have accepted : String.fromUTF8? (String.ofList text).toUTF8 = some (String.ofList text) :=
    dif_pos (String.ofList text).isValidUTF8
  simp only [decode?, encode, accepted, Option.map_some, String.toList_ofList]

theorem decode?_eq_some_iff (data : ByteArray) (text : Text) :
    decode? data = some text ↔ encode text = data := by
  constructor
  · exact encode_decode data text
  · rintro rfl
    exact decode_encode text

theorem decode?_eq_none_iff (data : ByteArray) :
    decode? data = none ↔ ∀ text, encode text ≠ data := by
  simp only [Option.eq_none_iff_forall_ne_some, ne_eq, decode?_eq_some_iff]

theorem encode_inj (first second : Text) : encode first = encode second ↔ first = second := by
  rw [← decode?_eq_some_iff, decode_encode, Option.some.injEq, eq_comm]

end Utf8

theorem saturatingSuccessor_toNat (word : UInt64) :
    (saturatingSuccessor word).toNat = min (word.toNat + 1) (UInt64.size - 1) := by
  have bound : word.toNat < UInt64.size := word.toNat_lt_size
  unfold saturatingSuccessor
  split
  next largest => subst largest; decide
  next smaller =>
    have different : word.toNat ≠ UInt64.size - 1 := by
      intro same
      apply smaller
      rw [← same]
      simp
    simp only [UInt64.toNat_add, UInt64.reduceToNat]
    simp only [UInt64.size] at bound different ⊢
    omega

theorem readUpTo_of_le (count : UInt64) (data : ByteArray) (fits : data.size ≤ count.toNat) :
    readUpTo count data = data := by
  apply ByteArray.ext
  simp [readUpTo, fits]

theorem boundedText_of_le (path : Path) (limit : UInt64) (data : ByteArray)
    (fits : data.size ≤ limit.toNat) :
    boundedText path limit data =
      match Utf8.decode? data with
      | none => .error (invalidEncodingFailure path)
      | some text => .ok text := by
  have bound : limit.toNat < UInt64.size := limit.toNat_lt_size
  have whole : readUpTo (saturatingSuccessor limit) data = data := by
    apply readUpTo_of_le
    rw [saturatingSuccessor_toNat]
    omega
  have notLarger : ¬ limit.toNat < data.size := by omega
  cases decoded : Utf8.decode? data <;>
    simp only [boundedText, whole, if_neg notLarger, decoded]

theorem boundedText_of_lt (path : Path) (limit : UInt64) (data : ByteArray)
    (exceeds : limit.toNat < data.size) (room : limit.toNat + 1 < UInt64.size) :
    boundedText path limit data = .error (tooLargeFailure path limit) := by
  have larger : limit.toNat < (readUpTo (saturatingSuccessor limit) data).size := by
    simp only [readUpTo, ByteArray.size_extract, saturatingSuccessor_toNat]
    omega
  simp only [boundedText, if_pos larger]

theorem boundedText_eq_ok_iff (path : Path) (limit : UInt64) (data : ByteArray)
    (storable : data.size < UInt64.size) (text : Text) :
    boundedText path limit data = .ok text ↔
      data.size ≤ limit.toNat ∧ Utf8.decode? data = some text := by
  by_cases fits : data.size ≤ limit.toNat
  · rw [boundedText_of_le path limit data fits]
    cases Utf8.decode? data <;> simp [fits]
  · rw [boundedText_of_lt path limit data (by omega) (by omega)]
    simp [fits]

theorem boundedText_cases (path : Path) (limit : UInt64) (data : ByteArray)
    (storable : data.size < UInt64.size ∨ limit.toNat + 1 < UInt64.size) :
    (limit.toNat < data.size ∧ boundedText path limit data = .error (tooLargeFailure path limit)) ∨
    (data.size ≤ limit.toNat ∧ (∀ text, Utf8.encode text ≠ data) ∧
      boundedText path limit data = .error (invalidEncodingFailure path)) ∨
    ∃ text, data.size ≤ limit.toNat ∧ Utf8.encode text = data ∧
      boundedText path limit data = .ok text := by
  by_cases exceeds : limit.toNat < data.size
  · have room : limit.toNat + 1 < UInt64.size := by omega
    exact .inl ⟨exceeds, boundedText_of_lt path limit data exceeds room⟩
  have fits : data.size ≤ limit.toNat := Nat.le_of_not_lt exceeds
  have read := boundedText_of_le path limit data fits
  cases decoded : Utf8.decode? data with
  | none =>
    rw [decoded] at read
    exact .inr (.inl ⟨fits, (Utf8.decode?_eq_none_iff data).mp decoded, read⟩)
  | some text =>
    rw [decoded] at read
    exact .inr (.inr ⟨text, fits, Utf8.encode_decode data text decoded, read⟩)

namespace Disk

theorem readBounded_eq_ok_iff (disk : Disk) (path : Path) (limit : UInt64) (text : Text) :
    disk.readBounded path limit = .ok text ↔
      ∃ place mode data, disk.status path = .ok (place, .file mode data) ∧
        mode.readable = true ∧ boundedText path limit data = .ok text := by
  simp only [readBounded, openForReading]
  cases disk.status path with
  | error cause => simp
  | ok found =>
    obtain ⟨place, item⟩ := found
    cases item with
    | link target => simp
    | directory mode => cases permitted : mode.readable <;> simp [permitted]
    | file mode data =>
      cases permitted : mode.readable with
      | false => simp [permitted]
      | true =>
        simp only [permitted, if_true, Except.ok.injEq, Prod.mk.injEq, Item.file.injEq]
        constructor
        · intro read
          exact ⟨place, mode, data, ⟨rfl, rfl, rfl⟩, permitted, read⟩
        · rintro ⟨_, _, _, ⟨rfl, rfl, rfl⟩, _, read⟩
          exact read

theorem readBounded_of_status (disk : Disk) (path : Path) (limit : UInt64) (place : Location)
    (mode : Mode) (data : ByteArray) (standing : disk.status path = .ok (place, .file mode data))
    (readable : mode.readable = true) :
    disk.readBounded path limit = boundedText path limit data := by
  simp only [readBounded, openForReading, standing, readable, if_true]

theorem bounded_reading (disk : Disk) (path : Path) (limit : UInt64) (place : Location)
    (mode : Mode) (data : ByteArray) (standing : disk.status path = .ok (place, .file mode data))
    (readable : mode.readable = true)
    (storable : data.size < UInt64.size ∨ limit.toNat + 1 < UInt64.size) :
    ((∃ error, disk.readBounded path limit = .error error ∧ error.kind = .fileTooLarge) ↔
      limit.toNat < data.size) ∧
    ((∃ error, disk.readBounded path limit = .error error ∧ error.kind = .invalidEncoding) ↔
      data.size ≤ limit.toNat ∧ ∀ text, Utf8.encode text ≠ data) ∧
    ∀ text, disk.readBounded path limit = .ok text ↔
      data.size ≤ limit.toNat ∧ Utf8.encode text = data := by
  rw [disk.readBounded_of_status path limit place mode data standing readable]
  rcases boundedText_cases path limit data storable with
    ⟨exceeds, read⟩ | ⟨fits, textless, read⟩ | ⟨text, fits, rfl, read⟩
  · have unfit : ¬ data.size ≤ limit.toNat := Nat.not_le_of_lt exceeds
    simp [read, tooLargeFailure, exceeds, unfit]
  · have within : ¬ limit.toNat < data.size := Nat.not_lt_of_le fits
    simp [read, invalidEncodingFailure, fits, within, textless]
  · have within : ¬ limit.toNat < (Utf8.encode text).size := Nat.not_lt_of_le fits
    simp [read, fits, within, Utf8.encode_inj, eq_comm]

-- One file breaks off within a character, and the other one has two octets for one.
def accented : Disk where
  items :=
    [([], .directory {}), ([nameOf "half"], .file {} ⟨#[0xC3]⟩),
      ([nameOf "whole"], .file {} ⟨#[0xC3, 0xA9, 0x00, 0x0D]⟩)]
  workingDirectory := []

theorem bounded_reading_accented :
    accented.status (Path.ofText "half".toList) =
      .ok ([nameOf "half"], .file {} ⟨#[0xC3]⟩) ∧
    (∃ error, accented.readBounded (Path.ofText "half".toList) 0 = .error error ∧
      error.kind = .fileTooLarge) ∧
    (∃ error, accented.readBounded (Path.ofText "half".toList) 0xFFFFFFFFFFFFFFFF = .error error ∧
      error.kind = .invalidEncoding) ∧
    accented.status (Path.ofText "whole".toList) =
      .ok ([nameOf "whole"], .file {} ⟨#[0xC3, 0xA9, 0x00, 0x0D]⟩) ∧
    accented.readBounded (Path.ofText "whole".toList) 0xFFFFFFFFFFFFFFFF =
      .ok ['é', '\x00', '\r'] := by
  have half : accented.status (Path.ofText "half".toList) =
      .ok ([nameOf "half"], .file {} ⟨#[0xC3]⟩) := by rfl
  have whole : accented.status (Path.ofText "whole".toList) =
      .ok ([nameOf "whole"], .file {} ⟨#[0xC3, 0xA9, 0x00, 0x0D]⟩) := by rfl
  have textless : ∀ text, Utf8.encode text ≠ ⟨#[0xC3]⟩ :=
    (Utf8.decode?_eq_none_iff _).mp (by decide +kernel)
  obtain ⟨short, -, -⟩ := bounded_reading accented _ 0 _ _ _ half rfl (.inl (by decide))
  obtain ⟨-, broken, -⟩ :=
    bounded_reading accented _ 0xFFFFFFFFFFFFFFFF _ _ _ half rfl (.inl (by decide))
  obtain ⟨-, -, read⟩ :=
    bounded_reading accented _ 0xFFFFFFFFFFFFFFFF _ _ _ whole rfl (.inl (by decide))
  exact ⟨half, short.mpr (by decide), broken.mpr ⟨by decide, textless⟩, whole,
    (read _).mpr ⟨by decide, by decide +kernel⟩⟩

end Disk

end RouteMigration
