import PagedIndex.Page

/-!
# Header pages

The root of a table. Byte 0 holds the tag, bytes 4–7 the depth, and from byte 8 on stand the page numbers
of the directories, one word each. The top `depth` bits of a hash choose the directory.
-/

namespace PagedIndex

structure Header (n : Nat) where
  bytes : Buffer n

namespace Header

variable {n : Nat}

def depthAt : Nat := 4

def slotsAt : Nat := 8

def extent : Nat := slotsAt + 4 * headerSlots

/-- Reads a buffer as a header page, if it is tagged as one. -/
def ofBytes (bytes : Buffer n) : Outcome (Header n) := do
  PageKind.header.expect bytes
  return ⟨bytes⟩

/-- Byte `i` of a header page that lists no directory: an invalid page number is four bytes `0xFF`. -/
def freshByte (depth i : Nat) : UInt8 :=
  if i = 0 then PageKind.header.tag
  else if i = depthAt then UInt8.ofNat depth
  else if i < slotsAt then 0
  else 0xFF

/-- Formats a buffer as a header page that lists no directory; the bytes behind the format stay. -/
def format (bytes : Buffer n) (depth : Nat) : Outcome (Header n) :=
  if maxHeaderDepth < depth then
    throw (.error (.invalidConfig (.headerPage depth maxHeaderDepth)))
  else if n < extent then throw (.violation .outOfBounds)
  else return ⟨bytes.mapFinIdx fun i byte _ => if i < extent then freshByte depth i else byte⟩

/-- How many hash bits choose a directory. -/
def depth (header : Header n) : Outcome Nat := do
  return (← header.bytes.word depthAt).toNat

def size (header : Header n) : Outcome Nat := do powerOfTwo (← header.depth)

/-- The slot of a hash: its top `depth` bits. -/
def slotFor (header : Header n) (hash : UInt32) : Outcome Nat := do
  let depth ← header.depth
  if depth = 0 then return 0
  else if depth ≤ 32 then return hash.toNat / Nat.pow 2 (32 - depth)
  else throw (.violation .overflow)

def requireSlot (header : Header n) (slot : Nat) : Outcome Unit := do
  if slot < (← header.size) then pure () else throw (.violation (.headerSlot slot))

def directory (header : Header n) (slot : Nat) : Outcome PageId := do
  header.requireSlot slot
  return ⟨← header.bytes.word (slotsAt + 4 * slot)⟩

def setDirectory (header : Header n) (slot : Nat) (page : PageId) : Outcome (Header n) := do
  header.requireSlot slot
  return ⟨← header.bytes.setWord (slotsAt + 4 * slot) page.number⟩

end Header

end PagedIndex
