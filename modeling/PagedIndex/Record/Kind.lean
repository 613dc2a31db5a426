import PagedIndex.Record.ByteKey
import PagedIndex.Record.Integer
import PagedIndex.Record.RowId

/-!
# Kinds of records

The types of keys and values that a caller may name at run time.
-/

namespace PagedIndex

inductive RecordKind where
  | i32
  | u32
  | i64
  | u64
  | row
  | bytes (n : Nat)
  deriving DecidableEq

namespace RecordKind

def Carrier : RecordKind → Type
  | i32 => Int32
  | u32 => UInt32
  | i64 => Int64
  | u64 => UInt64
  | row => RowId
  | bytes n => ByteKey n

instance (kind : RecordKind) : FixedWidth kind.Carrier :=
  match kind with
  | i32 => inferInstanceAs (FixedWidth Int32)
  | u32 => inferInstanceAs (FixedWidth UInt32)
  | i64 => inferInstanceAs (FixedWidth Int64)
  | u64 => inferInstanceAs (FixedWidth UInt64)
  | row => inferInstanceAs (FixedWidth RowId)
  | bytes n => inferInstanceAs (FixedWidth (ByteKey n))

instance (kind : RecordKind) : Inhabited kind.Carrier :=
  match kind with
  | i32 => ⟨(0 : Int32)⟩
  | u32 => ⟨(0 : UInt32)⟩
  | i64 => ⟨(0 : Int64)⟩
  | u64 => ⟨(0 : UInt64)⟩
  | row => inferInstanceAs (Inhabited RowId)
  | bytes n => inferInstanceAs (Inhabited (ByteKey n))

/-- Integers are compared by value, byte keys byte by byte; rows are not compared. -/
def comparator? : (kind : RecordKind) → Option (kind.Carrier → kind.Carrier → Ordering)
  | i32 => some (compare (α := Int32))
  | u32 => some (compare (α := UInt32))
  | i64 => some (compare (α := Int64))
  | u64 => some (compare (α := UInt64))
  | row => none
  | bytes n => some (compare (α := ByteKey n))

/-- The value of a kind that an integer stands for. Integers too large wrap around; a row has slot 0. -/
def ofInt : (kind : RecordKind) → Int → kind.Carrier
  | i32, n => Int32.ofInt n
  | u32, n => UInt32.ofInt n
  | i64, n => Int64.ofInt n
  | u64, n => UInt64.ofInt n
  | row, n => RowId.mk ⟨UInt32.ofInt n⟩ 0
  | bytes width, n => (ByteKey.ofInt64 (Int64.ofInt n) : ByteKey width)

end RecordKind

end PagedIndex
