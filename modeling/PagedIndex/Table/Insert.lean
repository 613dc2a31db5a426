import PagedIndex.Table

/-!
# Inserting

An entry goes into the bucket that its hash leads to. A full bucket is split on one more bit of the hash,
and the directory grows when the bucket was as deep as the directory.
-/

namespace PagedIndex.Table

open Pool (keeping holding entrusting view edit amend)

variable {K V σ : Type} [FixedWidth K] [FixedWidth V] [BackingStore σ]

/-- The directory page for a hash, made if there is none yet, and pinned. -/
def pinOrMakeDirectory (table : Table K V) (hash : UInt32) : Pool.Action σ PageId := do
  let directory ← table.pinDirectory hash
  if directory.isValid then return directory
  holding table.header do
    let (slot, existing) ← view table.header fun page => do
      let header ← Header.ofBytes page
      let slot ← header.slotFor hash
      return (slot, ← header.directory slot)
    -- The header was let go of in between, and somebody else may have made the directory.
    if existing.isValid then
      let _ ← Pool.fetch existing
      return existing
    let (directory, _) ← Pool.new
    entrusting directory do
      amend directory fun page => do return (← Directory.format page table.directoryDepth).bytes
      amend table.header fun page => do
        return (← (← Header.ofBytes page).setDirectory slot directory).bytes
    return directory

/-- Puts an entry into a new bucket behind a slot that has none. -/
def insertFirst (table : Table K V) (directory : PageId) (slot : Nat) (key : K) (value : V) :
    Pool.Action σ Bool := do
  let (bucket, _) ← Pool.new
  keeping bucket do
    let inserted ← edit bucket fun page => do
      let fresh : Bucket K V pageSize ← Bucket.format page table.bucketSize
      let (inserted, filled) ← fresh.insert key value
      return (inserted, filled.bytes)
    amend directory fun page => do
      let old ← Directory.ofBytes page
      let linked ← old.setBucket slot bucket
      return (← linked.setLocalDepth slot (← old.globalDepth)).bytes
    return inserted

/-- Splits the full bucket behind a slot into itself and an image. Nothing changes, and the answer is
`false`, when the directory would have to grow for it and may not. -/
def divideBucket (table : Table K V) (directory : PageId) (slot : Nat) (bucket : PageId) :
    Pool.Action σ Bool := do
  let (localDepth, globalDepth, maxDepth) ← view directory fun page => do
    let directory ← Directory.ofBytes page
    return (← directory.localDepth slot, ← directory.globalDepth, ← directory.maxDepth)
  if localDepth = globalDepth ∧ maxDepth ≤ globalDepth then return false
  let limit ← view bucket fun page => do
    let bucket : Bucket K V pageSize ← Bucket.ofBytes page
    bucket.limit
  let (image, _) ← Pool.new
  keeping image do
    amend image fun page => do
      let fresh : Bucket K V pageSize ← Bucket.format page limit
      return fresh.bytes
    if localDepth = globalDepth then
      amend directory fun page => do return (← (← Directory.ofBytes page).double).bytes
    let _ ← powerOfTwo localDepth
    let empty : Bucket K V pageSize ← view image Bucket.ofBytes
    let moved ← edit bucket fun page => do
      let full ← Bucket.ofBytes page
      let (kept, moved) ← Bucket.split (fun key => (table.hash key).toNat.testBit localDepth) full empty
      return (moved.bytes, kept.bytes)
    amend image fun _ => return moved
    amend directory fun page => do
      return (← (← Directory.ofBytes page).divide bucket image localDepth).bytes
    return true

/-- Puts an entry into its bucket, or splits the bucket if it is full: the answer is then still open. -/
def insertOrSplit (table : Table K V) (directory : PageId) (key : K) (value : V) :
    Pool.Action σ (Option Bool) := do
  let (slot, bucket) ← view directory (bucketIn (table.hash key))
  if !bucket.isValid then return some (← table.insertFirst directory slot key value)
  holding bucket do
    let full ← view bucket fun page => do
      let bucket : Bucket K V pageSize ← Bucket.ofBytes page
      bucket.isFull
    if full then
      if ← table.divideBucket directory slot bucket then return none else return some false
    else
      return some (← edit bucket fun page => do
        let bucket : Bucket K V pageSize ← Bucket.ofBytes page
        let (inserted, filled) ← bucket.insert key value
        return (inserted, filled.bytes))

/-- Splits until the entry finds room, at most `passes` times. -/
def insertWithin (table : Table K V) (directory : PageId) (key : K) (value : V) :
    (passes : Nat) → Pool.Action σ Bool
  | 0 => return false
  | passes + 1 => do
    match ← table.insertOrSplit directory key value with
    | some inserted => return inserted
    | none => insertWithin table directory key value passes

/-- Adds an entry. The answer is `false`, and the entries stay as they were, when its bucket is full and
cannot be split any further. -/
def insert (table : Table K V) (key : K) (value : V) : Pool.Action σ Bool := do
  let directory ← table.pinOrMakeDirectory (table.hash key)
  keeping directory do
    let maxDepth ← view directory fun page => do (← Directory.ofBytes page).maxDepth
    if wordBound ≤ maxDepth + 2 then throw (.violation .overflow)
    table.insertWithin directory key value (maxDepth + 2)

end PagedIndex.Table
