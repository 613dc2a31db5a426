import PagedIndex.Ascent
import PagedIndex.Page

/-!
# Directory pages

A directory maps the low `globalDepth` bits of a hash to a bucket page. Slots that agree on the low
`localDepth` bits share their bucket. Byte 0 holds the tag, bytes 4–7 the greatest depth the directory may
grow to, bytes 8–11 the global depth; then come 512 local depths of one byte and 512 page numbers of one
word.
-/

namespace PagedIndex

structure Directory (n : Nat) where
  bytes : Buffer n

namespace Directory

variable {n : Nat}

def maxDepthAt : Nat := 4

def globalDepthAt : Nat := 8

def depthsAt : Nat := 12

def bucketsAt : Nat := depthsAt + directorySlots

def extent : Nat := bucketsAt + 4 * directorySlots

/-- Reads a buffer as a directory page, if it is tagged as one. -/
def ofBytes (bytes : Buffer n) : Outcome (Directory n) := do
  PageKind.directory.expect bytes
  return ⟨bytes⟩

/-- Byte `i` of a directory of global depth 0 without a bucket. -/
def freshByte (maxDepth i : Nat) : UInt8 :=
  if i = 0 then PageKind.directory.tag
  else if i = maxDepthAt then UInt8.ofNat maxDepth
  else if i < bucketsAt then 0
  else 0xFF

/-- Formats a buffer as a directory of global depth 0 without a bucket; the bytes behind the format stay. -/
def format (bytes : Buffer n) (maxDepth : Nat) : Outcome (Directory n) :=
  if maxDirectoryDepth < maxDepth then
    throw (.error (.invalidConfig (.directoryPage maxDepth maxDirectoryDepth)))
  else if n < extent then throw (.violation .outOfBounds)
  else return ⟨bytes.mapFinIdx fun i byte _ => if i < extent then freshByte maxDepth i else byte⟩

/-! ### Depths and slots -/

/-- The greatest global depth the directory may grow to. -/
def maxDepth (directory : Directory n) : Outcome Nat := do
  return (← directory.bytes.word maxDepthAt).toNat

/-- How many low hash bits choose a slot. -/
def globalDepth (directory : Directory n) : Outcome Nat := do
  return (← directory.bytes.word globalDepthAt).toNat

def size (directory : Directory n) : Outcome Nat := do powerOfTwo (← directory.globalDepth)

/-- Slots in use once the directory has grown as far as it may. -/
def maxSize (directory : Directory n) : Outcome Nat := do powerOfTwo (← directory.maxDepth)

/-- The word whose one-bits are the hash bits that choose a slot. -/
def globalMask (directory : Directory n) : Outcome Nat := do return (← directory.size) - 1

/-- The slot of a hash: its low `globalDepth` bits. -/
def slotFor (directory : Directory n) (hash : UInt32) : Outcome Nat := do
  return hash.toNat % (← directory.size)

def requireSlot (directory : Directory n) (slot : Nat) : Outcome Unit := do
  let size ← directory.size
  if slot < size then pure () else throw (.violation (.directorySlot slot size))

def bucket (directory : Directory n) (slot : Nat) : Outcome PageId := do
  directory.requireSlot slot
  return ⟨← directory.bytes.word (bucketsAt + 4 * slot)⟩

/-- How many low hash bits the entries of a slot's bucket share. -/
def localDepth (directory : Directory n) (slot : Nat) : Outcome Nat := do
  directory.requireSlot slot
  return (← directory.bytes.byte (depthsAt + slot)).toNat

/-- The number of patterns of a slot's low `localDepth` bits. -/
def localSize (directory : Directory n) (slot : Nat) : Outcome Nat := do
  powerOfTwo (← directory.localDepth slot)

/-- The word whose one-bits are the hash bits that a slot's bucket shares. -/
def localMask (directory : Directory n) (slot : Nat) : Outcome Nat := do
  return (← directory.localSize slot) - 1

/-- The slot that differs in the top bit of the global depth only. -/
def imageSlot (directory : Directory n) (slot : Nat) : Outcome Nat := do
  let depth ← directory.globalDepth
  if depth = 0 then return 0
  else return slot ^^^ (← powerOfTwo (depth - 1))

def slots (directory : Directory n) : Outcome (List (PageId × Nat)) := do
  collectUp (fun slot => do return (← directory.bucket slot, ← directory.localDepth slot))
    (← directory.size) 0

/-! ### Changing slots -/

def setBucket (directory : Directory n) (slot : Nat) (page : PageId) : Outcome (Directory n) := do
  directory.requireSlot slot
  return ⟨← directory.bytes.setWord (bucketsAt + 4 * slot) page.number⟩

/-- Sets a slot's local depth, which may not exceed the depth the directory may grow to. -/
def setLocalDepth (directory : Directory n) (slot depth : Nat) : Outcome (Directory n) := do
  directory.requireSlot slot
  let limit ← directory.maxDepth
  if limit < depth then throw (.violation (.localDepthAboveMax depth limit))
  else return ⟨← directory.bytes.setByte (depthsAt + slot) (UInt8.ofNat depth)⟩

def deepen (directory : Directory n) (slot : Nat) : Outcome (Directory n) := do
  directory.setLocalDepth slot ((← directory.localDepth slot) + 1)

def flatten (directory : Directory n) (slot : Nat) : Outcome (Directory n) := do
  let depth ← directory.localDepth slot
  if depth = 0 then throw (.violation (.localDepthZero slot))
  else directory.setLocalDepth slot (depth - 1)

/-! ### Growing and shrinking -/

/-- Copies bucket and local depth of slot `source` into slot `target`, in use or not. -/
def copySlot (bytes : Buffer n) (source target : Nat) : Outcome (Buffer n) := do
  let bytes ← bytes.setByte (depthsAt + target) (← bytes.byte (depthsAt + source))
  bytes.setWord (bucketsAt + 4 * target) (← bytes.word (bucketsAt + 4 * source))

/-- Takes the bucket out of a slot, in use or not. -/
def clearSlot (bytes : Buffer n) (slot : Nat) : Outcome (Buffer n) := do
  (← bytes.setByte (depthsAt + slot) 0).setWord (bucketsAt + 4 * slot) PageId.invalid.number

/-- Doubles the directory; the upper half is a copy of the lower. -/
def double (directory : Directory n) : Outcome (Directory n) := do
  let depth ← directory.globalDepth
  if (← directory.maxDepth) ≤ depth then throw (.violation (.globalDepthAtMax depth))
  let half ← powerOfTwo depth
  let bytes ← foldUp (fun slot bytes => copySlot bytes (slot - half) slot) half half directory.bytes
  return ⟨← bytes.setWord globalDepthAt (UInt32.ofNat (depth + 1))⟩

/-- Halves the directory and clears the upper half. -/
def halve (directory : Directory n) : Outcome (Directory n) := do
  let depth ← directory.globalDepth
  if depth = 0 then throw (.violation .globalDepthZero)
  let half ← powerOfTwo (depth - 1)
  let bytes ← foldUp (fun slot bytes => clearSlot bytes slot) half half directory.bytes
  return ⟨← bytes.setWord globalDepthAt (UInt32.ofNat (depth - 1))⟩

/-- Whether no slot needs the full global depth. -/
def canHalve (directory : Directory n) : Outcome Bool := do
  let depth ← directory.globalDepth
  if depth = 0 then return false
  else allUp (fun slot => do return (← directory.localDepth slot) < depth) (← directory.size) 0

/-- Halves the directory as often as it can be halved, at most `rounds` times. -/
def halveFor : (rounds : Nat) → Directory n → Outcome (Directory n)
  | 0, directory => return directory
  | rounds + 1, directory => do
    if ← directory.canHalve then halveFor rounds (← directory.halve) else return directory

/-- Halves the directory until some slot needs its full global depth. -/
def halveFully (directory : Directory n) : Outcome (Directory n) := do
  halveFor (← directory.globalDepth) directory

/-! ### Splitting and uniting buckets -/

/-- Shares the slots of a bucket with its split image: of the slots, those that have the bit of `depth` set
go to the image. All of them are one deeper than before. -/
def divide (directory : Directory n) (bucket image : PageId) (depth : Nat) : Outcome (Directory n) := do
  foldUp (fun slot directory => do
    if (← directory.bucket slot) = bucket then
      let directory ← directory.setLocalDepth slot (depth + 1)
      if slot.testBit depth then directory.setBucket slot image else return directory
    else return directory) (← directory.size) 0 directory

/-- Gives the slots of `emptied` to `kept`; the slots of both then have local depth `depth`. -/
def unite (directory : Directory n) (kept emptied : PageId) (depth : Nat) : Outcome (Directory n) := do
  foldUp (fun slot directory => do
    let found ← directory.bucket slot
    if found = kept ∨ found = emptied then
      (← directory.setBucket slot kept).setLocalDepth slot depth
    else return directory) (← directory.size) 0 directory

/-- What the bucket of a slot was split from last: its depth, and the page of the other half. There is no
other half at depth 0, nor when it was split again. -/
def buddy? (directory : Directory n) (slot : Nat) (bucket : PageId) : Outcome (Option (Nat × PageId)) := do
  let depth ← directory.localDepth slot
  if depth = 0 then return none
  let image := slot ^^^ (← powerOfTwo (depth - 1))
  let page ← directory.bucket image
  if (← directory.localDepth image) ≠ depth ∨ !page.isValid ∨ page = bucket then return none
  return some (depth, page)

/-! ### Checking -/

/-- What the slots say about one bucket: its local depth and in how many slots it stands. -/
structure Mention where
  bucket : PageId
  depth : Nat
  count : Nat

/-- Counts one more slot of a bucket; all its slots have to agree on its depth. -/
def mention (bucket : PageId) (depth : Nat) : List Mention → Outcome (List Mention)
  | [] => return [⟨bucket, depth, 1⟩]
  | first :: rest => do
    if first.bucket = bucket then
      if first.depth = depth then return { first with count := first.count + 1 } :: rest
      else throw (.error (.corruptDirectory (.unevenDepths bucket first.depth depth)))
    else return first :: (← mention bucket depth rest)

/-- The buckets of the directory, each with its depth and its number of slots. -/
def mentions (directory : Directory n) (globalDepth : Nat) : Outcome (List Mention) := do
  foldUp (fun slot found => do
    let bucket ← directory.bucket slot
    if !bucket.isValid then return found
    let depth ← directory.localDepth slot
    if globalDepth < depth then
      throw (.error (.corruptDirectory (.deepSlot slot depth globalDepth)))
    mention bucket depth found) (← directory.size) 0 []

/-- Checks that no local depth exceeds the global depth, that the slots of a bucket agree on its local
depth, and that a bucket of local depth `d` stands in exactly `2 ^ (globalDepth - d)` slots. -/
def verify (directory : Directory n) : Outcome Unit := do
  let globalDepth ← directory.globalDepth
  (← directory.mentions globalDepth).forM fun found => do
    let expected := Nat.pow 2 (globalDepth - found.depth)
    if found.count = expected then pure ()
    else throw (.error (.corruptDirectory (.slotCount found.bucket found.count expected)))

end Directory

end PagedIndex
