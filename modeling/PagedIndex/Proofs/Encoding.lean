import Mathlib
import PagedIndex.Record.Kind
import PagedIndex.Proofs.Format.Bytes

/-!
# Values and their records

A value is stored as a record at the front of a buffer, whatever the buffer held and whatever stands behind the record,
and is loaded from there. For each type of keys and values every value has a record and every record is one of a value.
-/

namespace PagedIndex

variable {n m : Nat}

/-! ### The front of a buffer -/

namespace Buffer

theorem byteAt_append (front : Buffer n) (tail : Buffer m) (i : Nat) :
    byteAt (front ++ tail) i = if i < n then front.byteAt i else tail.byteAt (i - n) := by
  simp only [byteAt, Vector.getElem_append]
  split_ifs <;> first | rfl | omega

theorem put_append (front piece : Buffer n) (tail : Buffer m) : put (front ++ tail) 0 piece = piece ++ tail := by
  apply ext_byteAt
  intro i small
  rw [byteAt_put (by omega), byteAt_append, byteAt_append, Nat.zero_add, Nat.sub_zero]
  split_ifs <;> first | rfl | omega

theorem splice_append (front piece : Buffer n) (tail : Buffer m) :
    Buffer.splice (front ++ tail) 0 piece = .ok (piece ++ tail) := by
  rw [splice_eq (by omega), put_append]

theorem sliceAt_append (front : Buffer n) (tail : Buffer m) : sliceAt (front ++ tail) 0 n = front := by
  apply ext_byteAt
  intro i small
  rw [byteAt_sliceAt small, byteAt_append, Nat.zero_add, if_pos small]

theorem slice_append (front : Buffer n) (tail : Buffer m) : Buffer.slice (front ++ tail) 0 n = .ok front := by
  rw [slice_eq (by omega), sliceAt_append]

theorem sliceAt_whole (buffer : Buffer n) : buffer.sliceAt 0 n = buffer := by
  apply ext_byteAt
  intro i small
  rw [byteAt_sliceAt small, Nat.zero_add]

theorem toLittleEndian_wordAt (buffer : Buffer n) (start : Nat) :
    toLittleEndian 4 (buffer.wordAt start).toNat = buffer.sliceAt start 4 := by
  have small : ofLittleEndian (buffer.sliceAt start 4) < 2 ^ 32 := ofLittleEndian_lt _
  rw [wordAt, UInt32.toNat_ofNat_of_lt' small, toLittleEndian_ofLittleEndian]

end Buffer

/-! ### Laws of records -/

namespace FixedWidth

variable {α : Type} [FixedWidth α]

/-- Storing a value puts the record at the front of a buffer and leaves what is behind, and whatever is behind, the
value is loaded from there. -/
structure Stands (value : α) (record : Buffer (width α)) : Prop where
  store_append : ∀ (front : Buffer (width α)) {m : Nat} (tail : Buffer m),
    store value (front ++ tail) = .ok (record ++ tail)
  load_append : ∀ {m : Nat} (tail : Buffer m), load (record ++ tail) = .ok value

variable {value other : α} {record second : Buffer (width α)}

theorem Stands.store_eq (stands : Stands value record) (buffer : Buffer (width α)) :
    store value buffer = .ok record := by
  have stored := stands.store_append buffer #v[]
  rwa [Vector.append_empty, Vector.append_empty] at stored

theorem Stands.load_eq (stands : Stands value record) : load record = .ok value := by
  have loaded := stands.load_append #v[]
  rwa [Vector.append_empty] at loaded

theorem Stands.record_eq_iff (stands : Stands value record) (others : Stands other second) :
    record = second ↔ value = other := by
  constructor
  · rintro rfl
    exact Except.ok.inj (stands.load_eq.symm.trans others.load_eq)
  · rintro rfl
    exact Except.ok.inj ((stands.store_eq record).symm.trans (others.store_eq record))

end FixedWidth

open FixedWidth

/-- Every value has a record, and every record is one of a value. -/
class Faithful (α : Type) [FixedWidth α] : Prop where
  exists_record (value : α) : ∃ record, Stands value record
  exists_value (record : Buffer (width α)) : ∃ value : α, Stands value record

/-- What is stored in a buffer of just its width is read back. -/
class RoundTrips (α : Type) [FixedWidth α] : Prop where
  exists_record (value : α) : ∃ record : Buffer (width α),
    (∀ buffer : Buffer (width α), store value buffer = .ok record) ∧ load record = .ok value

instance (α : Type) [FixedWidth α] [Faithful α] : RoundTrips α where
  exists_record value := by
    obtain ⟨record, stands⟩ := Faithful.exists_record value
    exact ⟨record, stands.store_eq, stands.load_eq⟩

/-! ### Integers -/

theorem storeNumber_append (width number : Nat) (front : Buffer width) (tail : Buffer m) :
    storeNumber width number (front ++ tail) = .ok (toLittleEndian width number ++ tail) :=
  Buffer.splice_append front _ tail

theorem loadNumber_append {width : Nat} (record : Buffer width) (tail : Buffer m) :
    loadNumber width (record ++ tail) = .ok (ofLittleEndian record) := by
  rw [loadNumber, Buffer.slice_append]
  rfl

/-- A type whose values are the numbers of its width. -/
structure Numbered {α : Type} [FixedWidth α] (number : α → Nat) (ofNumber : Nat → α) : Prop where
  store_eq : ∀ (value : α) {n : Nat} (buffer : Buffer n),
    store value buffer = storeNumber (width α) (number value) buffer
  load_eq : ∀ {n : Nat} (buffer : Buffer n), load buffer = (loadNumber (width α) buffer).map ofNumber
  number_lt : ∀ value, number value < byteBound (width α)
  ofNumber_number : ∀ value, ofNumber (number value) = value
  number_ofNumber : ∀ small < byteBound (width α), number (ofNumber small) = small

namespace Numbered

variable {α : Type} [FixedWidth α] {number : α → Nat} {ofNumber : Nat → α} (numbered : Numbered number ofNumber)

include numbered

theorem stands (value : α) : Stands value (toLittleEndian (width α) (number value)) where
  store_append front _ tail := by rw [numbered.store_eq, storeNumber_append]
  load_append tail := by
    rw [numbered.load_eq, loadNumber_append, ofLittleEndian_toLittleEndian, Nat.mod_eq_of_lt (numbered.number_lt value)]
    exact congrArg Except.ok (numbered.ofNumber_number value)

theorem loads (record : Buffer (width α)) : load record = .ok (ofNumber (ofLittleEndian record)) := by
  rw [numbered.load_eq, loadNumber, Buffer.slice_eq (by omega), Buffer.sliceAt_whole]
  rfl

theorem faithful : Faithful α where
  exists_record value := ⟨_, numbered.stands value⟩
  exists_value record := by
    have own := numbered.stands (ofNumber (ofLittleEndian record))
    rw [numbered.number_ofNumber _ (ofLittleEndian_lt record), toLittleEndian_ofLittleEndian] at own
    exact ⟨_, own⟩

end Numbered

theorem numbered_word : Numbered UInt32.toNat UInt32.ofNat where
  store_eq _ _ _ := rfl
  load_eq _ := rfl
  number_lt := UInt32.toNat_lt
  ofNumber_number _ := UInt32.ofNat_toNat
  number_ofNumber _ small := UInt32.toNat_ofNat_of_lt' small

theorem numbered_long : Numbered UInt64.toNat UInt64.ofNat where
  store_eq _ _ _ := rfl
  load_eq _ := rfl
  number_lt := UInt64.toNat_lt
  ofNumber_number _ := UInt64.ofNat_toNat
  number_ofNumber _ small := UInt64.toNat_ofNat_of_lt' small

theorem numbered_signed_word :
    Numbered (fun value : Int32 => value.toUInt32.toNat) fun number => (UInt32.ofNat number).toInt32 where
  store_eq _ _ _ := rfl
  load_eq _ := rfl
  number_lt value := numbered_word.number_lt value.toUInt32
  ofNumber_number value := congrArg UInt32.toInt32 (numbered_word.ofNumber_number value.toUInt32)
  number_ofNumber := numbered_word.number_ofNumber

theorem numbered_signed_long :
    Numbered (fun value : Int64 => value.toUInt64.toNat) fun number => (UInt64.ofNat number).toInt64 where
  store_eq _ _ _ := rfl
  load_eq _ := rfl
  number_lt value := numbered_long.number_lt value.toUInt64
  ofNumber_number value := congrArg UInt64.toInt64 (numbered_long.ofNumber_number value.toUInt64)
  number_ofNumber := numbered_long.number_ofNumber

instance : Faithful UInt32 := numbered_word.faithful

instance : Faithful UInt64 := numbered_long.faithful

instance : Faithful Int32 := numbered_signed_word.faithful

instance : Faithful Int64 := numbered_signed_long.faithful

/-! ### Rows -/

namespace RowId

/-- A buffer with the two words of a row at its front. -/
def laid (row : RowId) (buffer : Buffer n) : Buffer n :=
  (buffer.putWord 0 row.page.number).putWord 4 row.slot

theorem store_eq (row : RowId) {buffer : Buffer n} (room : 8 ≤ n) : store row buffer = .ok (row.laid buffer) := by
  change (buffer.splice 0 _ >>= fun paged => paged.amend 4 4 (store row.slot)) = _
  rw [bind_of_ok _ (Buffer.splice_eq (by omega))]
  exact Buffer.amend_eq room ((numbered_word.stands row.slot).store_eq _)

theorem load_eq {buffer : Buffer n} (room : 8 ≤ n) :
    load buffer = .ok (⟨⟨buffer.wordAt 0⟩, buffer.wordAt 4⟩ : RowId) := by
  change (buffer.slice 0 4 >>= fun page => buffer.slice 4 4 >>= fun rest => load rest >>= fun slot =>
    (pure ⟨⟨UInt32.ofNat (ofLittleEndian page)⟩, slot⟩ : Outcome RowId)) = _
  rw [bind_of_ok _ (Buffer.slice_eq (by omega)), bind_of_ok _ (Buffer.slice_eq room),
    bind_of_ok _ (numbered_word.loads _)]
  rfl

theorem laid_append (row : RowId) (front second : Buffer 8) (tail : Buffer m) :
    row.laid (front ++ tail) = row.laid second ++ tail := by
  apply Buffer.ext_byteAt
  intro i small
  rw [Buffer.byteAt_append, laid, laid, Buffer.putWord, Buffer.putWord, Buffer.putWord, Buffer.putWord,
    Buffer.byteAt_put (by omega), Buffer.byteAt_put (by omega), Buffer.byteAt_put (by omega),
    Buffer.byteAt_put (by omega), Buffer.byteAt_append]
  split_ifs <;> first | rfl | omega

theorem wordAt_laid (row : RowId) {buffer : Buffer n} (room : 8 ≤ n) :
    (row.laid buffer).wordAt 0 = row.page.number ∧ (row.laid buffer).wordAt 4 = row.slot := by
  refine ⟨?_, Buffer.wordAt_putWord room⟩
  rw [laid, Buffer.wordAt_putWord_apart room (.inl (by omega)), Buffer.wordAt_putWord (by omega)]

/-- The words that a buffer has at its front anyway. -/
theorem laid_words (buffer : Buffer 8) : laid ⟨⟨buffer.wordAt 0⟩, buffer.wordAt 4⟩ buffer = buffer := by
  apply Buffer.ext_byteAt
  intro i small
  rw [laid, Buffer.putWord, Buffer.putWord, Buffer.toLittleEndian_wordAt, Buffer.toLittleEndian_wordAt,
    Buffer.byteAt_put (by omega), Buffer.byteAt_put (by omega)]
  split_ifs with high low
  · rw [Buffer.byteAt_sliceAt (by omega)]
    congr 1
    omega
  · rw [Buffer.byteAt_sliceAt (by omega)]
    congr 1
    omega
  · rfl

theorem stands (row : RowId) (blank : Buffer 8) : Stands row (row.laid blank) where
  store_append front m tail := by rw [store_eq row (Nat.le_add_right 8 m), laid_append row front blank]
  load_append {m} tail := by
    rw [← laid_append row blank, load_eq (Nat.le_add_right 8 m), (wordAt_laid row (Nat.le_add_right 8 m)).1,
      (wordAt_laid row (Nat.le_add_right 8 m)).2]

instance : Faithful RowId where
  exists_record row := ⟨_, row.stands (Buffer.filled 8 0)⟩
  exists_value record := by
    have own := stands ⟨⟨record.wordAt 0⟩, record.wordAt 4⟩ record
    rw [laid_words] at own
    exact ⟨_, own⟩

end RowId

/-! ### Byte keys -/

theorem ByteKey.ofBytes_toArray (record : Buffer n) : (ofBytes record.toArray : ByteKey n) = ⟨record⟩ := by
  rw [ofBytes, ByteKey.mk.injEq]
  apply Vector.ext
  intro i small
  simp

theorem ByteKey.stands (key : ByteKey n) : Stands key key.bytes where
  store_append front _ tail := Buffer.splice_append front key.bytes tail
  load_append tail := by
    change (Buffer.slice (key.bytes ++ tail) 0 n >>= fun record =>
      (pure (ofBytes record.toArray) : Outcome (ByteKey n))) = _
    rw [bind_of_ok _ (Buffer.slice_append _ _), ofBytes_toArray]
    rfl

instance : Faithful (ByteKey n) where
  exists_record key := ⟨_, key.stands⟩
  exists_value record := ⟨⟨record⟩, ByteKey.stands _⟩

/-! ### All kinds -/

instance (kind : RecordKind) : Faithful kind.Carrier :=
  match kind with
  | .i32 => inferInstanceAs (Faithful Int32)
  | .u32 => inferInstanceAs (Faithful UInt32)
  | .i64 => inferInstanceAs (Faithful Int64)
  | .u64 => inferInstanceAs (Faithful UInt64)
  | .row => inferInstanceAs (Faithful RowId)
  | .bytes n => inferInstanceAs (Faithful (ByteKey n))

end PagedIndex
