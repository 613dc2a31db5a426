import PagedIndex.Record

/-!
# Integer records

Integers are stored least significant byte first, negative ones as their two's complement.
-/

namespace PagedIndex

/-- The number in the first `width` bytes. -/
def loadNumber {n : Nat} (width : Nat) (buffer : Buffer n) : Outcome Nat := do
  return ofLittleEndian (← buffer.slice 0 width)

/-- Stores a number in the first `width` bytes. -/
def storeNumber {n : Nat} (width number : Nat) (buffer : Buffer n) : Outcome (Buffer n) :=
  buffer.splice 0 (toLittleEndian width number)

instance : FixedWidth UInt32 where
  width := 4
  store value := storeNumber 4 value.toNat
  load buffer := return UInt32.ofNat (← loadNumber 4 buffer)

instance : FixedWidth UInt64 where
  width := 8
  store value := storeNumber 8 value.toNat
  load buffer := return UInt64.ofNat (← loadNumber 8 buffer)

instance : FixedWidth Int32 where
  width := 4
  store value := storeNumber 4 value.toUInt32.toNat
  load buffer := return (UInt32.ofNat (← loadNumber 4 buffer)).toInt32

instance : FixedWidth Int64 where
  width := 8
  store value := storeNumber 8 value.toUInt64.toNat
  load buffer := return (UInt64.ofNat (← loadNumber 8 buffer)).toInt64

end PagedIndex
