import PagedIndex.Record

/-!
# Hashes of records

A key is hashed by the checksum of its record; the checksum of a string of bytes is given.
-/

namespace PagedIndex.Checksum

/-- Records up to this width are laid out in a buffer of this size. -/
def inlineWidth : Nat := 64

section Record

variable {α : Type} [FixedWidth α] (crc : List UInt8 → UInt32)

/-- The checksum of the part of a buffer of fixed size in which a narrow record was laid out. -/
def ofInlined (value : α) : Outcome UInt32 := do
  let width := FixedWidth.width α
  let buffer ← (Buffer.filled inlineWidth 0).amend 0 width (FixedWidth.store value)
  return crc (← buffer.slice 0 width).toList

/-- The checksum of a buffer of just the size of the record that was laid out in it. -/
def ofFitted (value : α) : Outcome UInt32 := do
  return crc (← FixedWidth.store value (Buffer.filled (FixedWidth.width α) 0)).toList

/-- The checksum of a value's record, a hash that is well mixed at both ends. -/
def ofRecord (value : α) : Outcome UInt32 :=
  if FixedWidth.width α ≤ inlineWidth then ofInlined crc value else ofFitted crc value

end Record

end PagedIndex.Checksum
