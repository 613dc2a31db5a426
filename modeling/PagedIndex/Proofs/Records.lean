import Mathlib
import PagedIndex.Checksum
import PagedIndex.Proofs.Encoding

/-!
# Keys, records and checksums

A value and its record determine each other, whatever stands behind the record. So keys that compare equal are equal
and have equal records, and, as a checksum is one of the record alone, equal checksums.
-/

namespace PagedIndex

open FixedWidth

variable {n m : Nat}

/-! ### Checksums -/

namespace Checksum

variable {α : Type} [FixedWidth α] {value : α} {record : Buffer (width α)} (crc : List UInt8 → UInt32)

/-- Bytes of the buffer behind the record do not count. -/
theorem ofInlined_eq (stands : Stands value record) (narrow : width α ≤ inlineWidth) :
    ofInlined crc value = .ok (crc record.toList) := by
  have room : 0 + width α ≤ inlineWidth := by rwa [Nat.zero_add]
  rw [ofInlined, bind_of_ok _ (Buffer.amend_eq room (stands.store_eq _)), bind_of_ok _ (Buffer.slice_eq room),
    Buffer.sliceAt_put room]
  rfl

theorem ofFitted_eq (stands : Stands value record) : ofFitted crc value = .ok (crc record.toList) := by
  rw [ofFitted, bind_of_ok _ (stands.store_eq _)]
  rfl

theorem ofRecord_eq (stands : Stands value record) : ofRecord crc value = .ok (crc record.toList) := by
  by_cases narrow : width α ≤ inlineWidth
  · rw [ofRecord, if_pos narrow, ofInlined_eq crc stands narrow]
  · rw [ofRecord, if_neg narrow, ofFitted_eq crc stands]

end Checksum

/-! ### Comparing keys -/

namespace ByteKey

theorem compareBytes_eq_iff (first second : List UInt8) : compareBytes first second = .eq ↔ first = second := by
  induction first generalizing second with
  | nil => cases second <;> simp [compareBytes]
  | cons a as ih =>
    cases second with
    | nil => simp [compareBytes]
    | cons b bs => simp [compareBytes, ih, Ordering.then_eq_eq]

theorem compare_eq_iff (first second : ByteKey n) : compare first second = .eq ↔ first = second := by
  obtain ⟨first⟩ := first
  obtain ⟨second⟩ := second
  change compareBytes first.toList second.toList = .eq ↔ _
  rw [compareBytes_eq_iff, Vector.toList_inj, ByteKey.mk.injEq]

end ByteKey

theorem RecordKind.comparator_eq_iff {kind : RecordKind} {order : kind.Carrier → kind.Carrier → Ordering}
    (natural : kind.comparator? = some order) (first second : kind.Carrier) :
    order first second = .eq ↔ first = second := by
  cases kind with
  | row => cases natural
  | i32 =>
    cases natural
    exact Std.compare_eq_iff_eq (α := Int32)
  | u32 =>
    cases natural
    exact Std.compare_eq_iff_eq (α := UInt32)
  | i64 =>
    cases natural
    exact Std.compare_eq_iff_eq (α := Int64)
  | u64 =>
    cases natural
    exact Std.compare_eq_iff_eq (α := UInt64)
  | bytes n =>
    cases natural
    exact ByteKey.compare_eq_iff first second

/-! ### Keys of numbers -/

theorem toLittleEndian_eq_iff (width a b : Nat) :
    toLittleEndian width a = toLittleEndian width b ↔ a % byteBound width = b % byteBound width := by
  constructor
  · intro same
    rw [← ofLittleEndian_toLittleEndian, same, ofLittleEndian_toLittleEndian]
  · intro same
    rw [← toLittleEndian_ofLittleEndian (toLittleEndian width a), ofLittleEndian_toLittleEndian, same,
      ← ofLittleEndian_toLittleEndian, toLittleEndian_ofLittleEndian]

theorem byteBound_eq (width : Nat) : byteBound width = 2 ^ (8 * width) := by
  rw [Nat.pow_mul]
  rfl

theorem toInt_modEq (value : Int64) : value.toInt ≡ (value.toUInt64.toNat : Int) [ZMOD 2 ^ 64] := by
  change value.toBitVec.toInt % 2 ^ 64 = (value.toBitVec.toNat : Int) % 2 ^ 64
  rw [BitVec.toInt_eq_toNat_bmod]
  exact Int.bmod_emod

theorem getElem_toLittleEndian (width value : Nat) {i : Nat} (small : i < width) :
    (toLittleEndian width value)[i] = UInt8.ofNat (value / byteBound i) := by
  simp [toLittleEndian]

namespace ByteKey

theorem ext_bytes {first second : ByteKey n} (same : ∀ i (_ : i < n), first.bytes[i] = second.bytes[i]) :
    first = second := by
  obtain ⟨first⟩ := first
  obtain ⟨second⟩ := second
  rw [ByteKey.mk.injEq]
  exact Vector.ext same

/-- Bytes of the number that the key has no room for are left out; those that the number does not have are zero. -/
theorem getElem_ofInt64 (value : Int64) {i : Nat} (small : i < n) :
    (ofInt64 value : ByteKey n).bytes[i] =
      if i < 8 then UInt8.ofNat (value.toUInt64.toNat / byteBound i) else 0 := by
  by_cases within : i < 8
  · simp [ofInt64, ofBytes, toLittleEndian, within]
  · simp [ofInt64, ofBytes, toLittleEndian, within]

theorem ofInt64_eq_iff_bytes (a b : Int64) :
    (ofInt64 a : ByteKey n) = ofInt64 b ↔
      toLittleEndian (min n 8) a.toUInt64.toNat = toLittleEndian (min n 8) b.toUInt64.toNat := by
  constructor
  · intro same
    apply Vector.ext
    intro i small
    have room : i < n := by omega
    have bytes : (ofInt64 a : ByteKey n).bytes[i] = (ofInt64 b : ByteKey n).bytes[i] := by rw [same]
    rw [getElem_ofInt64 a room, getElem_ofInt64 b room, if_pos (by omega), if_pos (by omega)] at bytes
    rw [getElem_toLittleEndian, getElem_toLittleEndian, bytes]
  · intro same
    apply ext_bytes
    intro i room
    rw [getElem_ofInt64 a room, getElem_ofInt64 b room]
    by_cases within : i < 8
    · have small : i < min n 8 := by omega
      rw [if_pos within, if_pos within, ← getElem_toLittleEndian (min n 8) _ small,
        ← getElem_toLittleEndian (min n 8) _ small]
      simp only [same]
    · rw [if_neg within, if_neg within]

/-- A key tells numbers apart as far as it has room for their bytes. -/
theorem ofInt64_eq_iff (a b : Int64) :
    (ofInt64 a : ByteKey n) = ofInt64 b ↔ a.toInt ≡ b.toInt [ZMOD 2 ^ (8 * min n 8)] := by
  have divides : (2 : Int) ^ (8 * min n 8) ∣ 2 ^ 64 := pow_dvd_pow 2 (by omega)
  have first := (toInt_modEq a).of_dvd divides
  have second := (toInt_modEq b).of_dvd divides
  have words : (a.toUInt64.toNat : Int) ≡ b.toUInt64.toNat [ZMOD 2 ^ (8 * min n 8)] ↔
      a.toUInt64.toNat ≡ b.toUInt64.toNat [MOD 2 ^ (8 * min n 8)] := by
    exact_mod_cast Int.natCast_modEq_iff (n := 2 ^ (8 * min n 8))
  rw [ofInt64_eq_iff_bytes, toLittleEndian_eq_iff, byteBound_eq]
  constructor
  · intro same
    exact first.trans ((words.mpr same).trans second.symm)
  · intro same
    exact words.mp (first.symm.trans (same.trans second))

end ByteKey

/-! ### Agreement -/

/-- Keys of a kind, their records and their checksums, of whatever checksum of bytes, tell the same keys apart. -/
structure RecordKind.Agrees (kind : RecordKind) (crc : List UInt8 → UInt32) : Prop where
  exists_record : ∀ value : kind.Carrier, ∃ record, Stands value record
  exists_value : ∀ record : Buffer (width kind.Carrier), ∃ value : kind.Carrier, Stands value record
  record_eq_iff : ∀ {a b : kind.Carrier} {first second}, Stands a first → Stands b second → (first = second ↔ a = b)
  comparator_eq_iff : ∀ {order}, kind.comparator? = some order → ∀ a b : kind.Carrier, order a b = .eq ↔ a = b
  inlined_eq : ∀ {key : kind.Carrier} {record}, Stands key record → width kind.Carrier ≤ Checksum.inlineWidth →
    Checksum.ofInlined crc key = .ok (crc record.toList)
  fitted_eq : ∀ {key : kind.Carrier} {record}, Stands key record → Checksum.ofFitted crc key = .ok (crc record.toList)
  checksum_eq : ∀ {key : kind.Carrier} {record}, Stands key record → Checksum.ofRecord crc key = .ok (crc record.toList)
  checksum_congr : ∀ {order}, kind.comparator? = some order → ∀ a b : kind.Carrier, order a b = .eq →
    Checksum.ofRecord crc a = Checksum.ofRecord crc b

/-- Comparison, records and checksums agree for every kind of key, and keys of numbers keep as much of a number as they
have room for. -/
theorem records_agree :
    (∀ (kind : RecordKind) (crc : List UInt8 → UInt32), kind.Agrees crc) ∧
    ∀ n (a b : Int64), (ByteKey.ofInt64 a : ByteKey n) = ByteKey.ofInt64 b ↔
      a.toInt ≡ b.toInt [ZMOD 2 ^ (8 * min n 8)] := by
  refine ⟨fun kind crc => ?_, fun n => ByteKey.ofInt64_eq_iff⟩
  exact {
    exists_record := Faithful.exists_record
    exists_value := Faithful.exists_value
    record_eq_iff := Stands.record_eq_iff
    comparator_eq_iff := kind.comparator_eq_iff
    inlined_eq := Checksum.ofInlined_eq crc
    fitted_eq := Checksum.ofFitted_eq crc
    checksum_eq := Checksum.ofRecord_eq crc
    checksum_congr := fun natural a b equal => by rw [(kind.comparator_eq_iff natural a b).mp equal] }

end PagedIndex
