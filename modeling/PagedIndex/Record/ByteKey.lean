import PagedIndex.Record
import PagedIndex.Text.Hex

/-!
# Byte keys

Keys of exactly `n` bytes, compared byte by byte.
-/

namespace PagedIndex

structure ByteKey (n : Nat) where
  bytes : Buffer n
  deriving DecidableEq

namespace ByteKey

variable {n : Nat}

/-- The key of the first `n` of these bytes, filled up with zeros. -/
def ofBytes (bytes : Array UInt8) : ByteKey n := ⟨.ofFn fun i => bytes.getD i.val 0⟩

/-- The key of a number's eight bytes, least significant first. -/
def ofInt64 (value : Int64) : ByteKey n := ofBytes (toLittleEndian 8 value.toUInt64.toNat).toArray

instance : Inhabited (ByteKey n) := ⟨⟨.filled n 0⟩⟩

instance : FixedWidth (ByteKey n) where
  width := n
  store key buffer := buffer.splice 0 key.bytes
  load buffer := return ofBytes (← buffer.slice 0 n).toArray

/-- The first place where two strings of bytes differ decides; a proper beginning comes first. -/
def compareBytes : List UInt8 → List UInt8 → Ordering
  | [], [] => .eq
  | [], _ :: _ => .lt
  | _ :: _, [] => .gt
  | a :: as, b :: bs => (compare a b).then (compareBytes as bs)

instance : Ord (ByteKey n) := ⟨fun a b => compareBytes a.bytes.toList b.bytes.toList⟩

/-- A key in a listing: its width and its bytes. -/
def listing (key : ByteKey n) : String :=
  "GenericKey<" ++ toString n ++ ">([" ++
    ", ".intercalate (key.bytes.toList.map fun byte => Hex.encode [byte]) ++ "])"

end ByteKey

end PagedIndex
