import PagedIndex.Buffer

/-!
# Records

Keys and values are stored as records of a fixed width.
-/

namespace PagedIndex

/-- A type whose values are stored in the first `width` bytes of a buffer. -/
class FixedWidth (α : Type) where
  width : Nat
  store {n : Nat} (value : α) (buffer : Buffer n) : Outcome (Buffer n)
  load {n : Nat} (buffer : Buffer n) : Outcome α

end PagedIndex
