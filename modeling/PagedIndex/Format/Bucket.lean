import PagedIndex.Ascent
import PagedIndex.Page
import PagedIndex.Record

/-!
# Bucket pages

A bucket is a list of entries of one width, each a key and a value. Byte 0 holds the tag, bytes 4–7 the
number of entries, bytes 8–11 the most it may hold; the entries follow from byte 12 on.
-/

namespace PagedIndex

/-- How many entries of `width` bytes fit in a page. -/
def entriesPerPage (width : Nat) : Nat := (pageSize - bucketPreamble) / width

/-- How many entries of `width` bytes fit in a page, for an entry that has bytes at all. -/
def countEntries (width : Nat) : Outcome Nat :=
  if width = 0 then throw (.violation .divisionByZero) else return entriesPerPage width

structure Bucket (K V : Type) (n : Nat) where
  bytes : Buffer n

namespace Bucket

variable {K V : Type} [FixedWidth K] [FixedWidth V] {n : Nat}

def sizeAt : Nat := 4

def limitAt : Nat := 8

def entryWidth (K V : Type) [FixedWidth K] [FixedWidth V] : Nat :=
  FixedWidth.width K + FixedWidth.width V

/-- The most entries a bucket page can hold. -/
def capacity (K V : Type) [FixedWidth K] [FixedWidth V] : Nat := entriesPerPage (entryWidth K V)

def entryStart (K V : Type) [FixedWidth K] [FixedWidth V] (index : Nat) : Nat :=
  bucketPreamble + index * entryWidth K V

/-- Reads a buffer as a bucket, if it is tagged as one. -/
def ofBytes (bytes : Buffer n) : Outcome (Bucket K V n) := do
  PageKind.bucket.expect bytes
  return ⟨bytes⟩

/-- Byte `i` of the preamble of an empty bucket for `limit` entries. -/
def freshByte (limit i : Nat) : UInt8 :=
  if i = 0 then PageKind.bucket.tag
  else if limitAt ≤ i then UInt8.ofNat (limit / byteBound (i - limitAt))
  else 0

/-- Formats a buffer as an empty bucket for at most `limit` entries; the bytes behind the preamble stay. -/
def format (bytes : Buffer n) (limit : Nat) : Outcome (Bucket K V n) :=
  if limit = 0 ∨ capacity K V < limit then
    throw (.error (.invalidConfig (.bucketPage limit (capacity K V))))
  else if n < bucketPreamble then throw (.violation .outOfBounds)
  else return ⟨bytes.mapFinIdx fun i byte _ => if i < bucketPreamble then freshByte limit i else byte⟩

/-! ### Reading -/

def size (bucket : Bucket K V n) : Outcome Nat := do
  return (← bucket.bytes.word sizeAt).toNat

def limit (bucket : Bucket K V n) : Outcome Nat := do
  return (← bucket.bytes.word limitAt).toNat

def isFull (bucket : Bucket K V n) : Outcome Bool := do
  return (← bucket.limit) ≤ (← bucket.size)

def isEmpty (bucket : Bucket K V n) : Outcome Bool := do
  return (← bucket.size) = 0

def requireEntry (bucket : Bucket K V n) (index : Nat) : Outcome Unit := do
  let size ← bucket.size
  if index < size then pure () else throw (.violation (.bucketEntry index size))

def key (bucket : Bucket K V n) (index : Nat) : Outcome K := do
  bucket.requireEntry index
  FixedWidth.load (← bucket.bytes.slice (entryStart K V index) (FixedWidth.width K))

def value (bucket : Bucket K V n) (index : Nat) : Outcome V := do
  bucket.requireEntry index
  FixedWidth.load (← bucket.bytes.slice (entryStart K V index + FixedWidth.width K) (FixedWidth.width V))

def entry (bucket : Bucket K V n) (index : Nat) : Outcome (K × V) := do
  return (← bucket.key index, ← bucket.value index)

def entries (bucket : Bucket K V n) : Outcome (List (K × V)) := do
  collectUp bucket.entry (← bucket.size) 0

/-- The values of `count` entries from `start` on whose key is equal to `sought`. -/
def lookupFrom (compare : K → K → Ordering) (sought : K) (bucket : Bucket K V n) :
    (count start : Nat) → Outcome (List V)
  | 0, _ => return []
  | count + 1, start => do
    if compare (← bucket.key start) sought = .eq then
      let first ← bucket.value start
      return first :: (← lookupFrom compare sought bucket count (start + 1))
    else lookupFrom compare sought bucket count (start + 1)

/-- The values stored under a key, oldest first. -/
def lookup (bucket : Bucket K V n) (compare : K → K → Ordering) (sought : K) : Outcome (List V) := do
  lookupFrom compare sought bucket (← bucket.size) 0

/-! ### Changing -/

def setSize (bucket : Bucket K V n) (size : Nat) : Outcome (Bucket K V n) := do
  return ⟨← bucket.bytes.setWord sizeAt (UInt32.ofNat size)⟩

/-- Appends an entry, unless the bucket is full; says whether it did. -/
def insert (bucket : Bucket K V n) (key : K) (value : V) : Outcome (Bool × Bucket K V n) := do
  if ← bucket.isFull then return (false, bucket)
  let size ← bucket.size
  let bytes ← bucket.bytes.amend (entryStart K V size) (FixedWidth.width K) (FixedWidth.store key)
  let bytes ← bytes.amend (entryStart K V size + FixedWidth.width K) (FixedWidth.width V) (FixedWidth.store value)
  return (true, ← setSize ⟨bytes⟩ (size + 1))

/-- Appends entries as long as there is room; says how many were appended. -/
def insertAll (bucket : Bucket K V n) : List (K × V) → Outcome (Nat × Bucket K V n)
  | [] => return (0, bucket)
  | (key, value) :: rest => do
    let (inserted, bucket) ← bucket.insert key value
    let (others, bucket) ← bucket.insertAll rest
    return ((if inserted then 1 else 0) + others, bucket)

/-- Takes an entry out; the entries behind it move up. -/
def eraseAt (bucket : Bucket K V n) (index : Nat) : Outcome (Bucket K V n) := do
  bucket.requireEntry index
  let size ← bucket.size
  let start := entryStart K V index
  let bytes ← bucket.bytes.move (start + entryWidth K V) (entryWidth K V * (size - index - 1)) start
  setSize ⟨bytes⟩ (size - 1)

/-- Takes out those of the last `left` entries, the first of them at `index`, whose key is equal to `sought`;
says how many went. -/
def eraseFrom (compare : K → K → Ordering) (sought : K) :
    (left index : Nat) → Bucket K V n → Outcome (Nat × Bucket K V n)
  | 0, _, bucket => return (0, bucket)
  | left + 1, index, bucket => do
    if compare (← bucket.key index) sought = .eq then
      let (gone, bucket) ← eraseFrom compare sought left index (← bucket.eraseAt index)
      return (gone + 1, bucket)
    else eraseFrom compare sought left (index + 1) bucket

/-- Takes out every entry stored under a key; says how many went. -/
def erase (bucket : Bucket K V n) (compare : K → K → Ordering) (sought : K) :
    Outcome (Nat × Bucket K V n) := do
  eraseFrom compare sought (← bucket.size) 0 bucket

/-- Moves those of the last `left` entries, the first of them at `index`, whose key `moves` over to
`image`. -/
def splitFrom (moves : K → Bool) :
    (left index : Nat) → (bucket image : Bucket K V n) → Outcome (Bucket K V n × Bucket K V n)
  | 0, _, bucket, image => return (bucket, image)
  | left + 1, index, bucket, image => do
    let (key, value) ← bucket.entry index
    if moves key then
      let (inserted, image) ← image.insert key value
      if !inserted then throw (.violation .imageOverflow)
      splitFrom moves left index (← bucket.eraseAt index) image
    else splitFrom moves left (index + 1) bucket image

/-- Moves every entry whose key `moves` over to `image`; both keep their order. -/
def split (moves : K → Bool) (bucket image : Bucket K V n) :
    Outcome (Bucket K V n × Bucket K V n) := do
  splitFrom moves (← bucket.size) 0 bucket image

end Bucket

end PagedIndex
