import PagedIndex.Table

/-!
# Outlines

The shape of a table, read page by page through the pool.
-/

namespace PagedIndex

structure BucketOutline (K V : Type) where
  page : PageId
  size : Nat
  limit : Nat
  entries : List (K × V)

structure DirectoryOutline (K V : Type) where
  headerSlot : Nat
  page : PageId
  maxDepth : Nat
  globalDepth : Nat
  slots : List (PageId × Nat)
  /-- The buckets in the order in which the slots name them. -/
  buckets : List (BucketOutline K V)

structure Outline (K V : Type) where
  depth : Nat
  directories : List (DirectoryOutline K V)

namespace Table

open Pool (holding view)

variable {K V σ : Type} [FixedWidth K] [FixedWidth V] [BackingStore σ]

/-- Reads a bucket, on request with its entries. -/
def outlineBucket (K V : Type) [FixedWidth K] [FixedWidth V] (withEntries : Bool) (page : PageId) :
    Pool.Action σ (BucketOutline K V) :=
  holding page (view page fun bytes => do
    let bucket : Bucket K V pageSize ← Bucket.ofBytes bytes
    return {
      page
      size := ← bucket.size
      limit := ← bucket.limit
      entries := ← if withEntries then bucket.entries else pure [] })

/-- Reads `count` slots of a directory from `slot` on. A bucket that was not seen before is read where its
slot stands, before the next slot is looked at. -/
def outlineSlots (K V : Type) [FixedWidth K] [FixedWidth V] (withEntries : Bool)
    (directory : Directory pageSize) :
    (count slot : Nat) → (seen : List PageId) →
      Pool.Action σ (List (PageId × Nat) × List (BucketOutline K V))
  | 0, _, _ => return ([], [])
  | count + 1, slot, seen => do
    let page ← directory.bucket slot
    let depth ← directory.localDepth slot
    if !page.isValid || seen.contains page then
      let (slots, buckets) ← outlineSlots K V withEntries directory count (slot + 1) seen
      return ((page, depth) :: slots, buckets)
    else
      let bucket ← outlineBucket K V withEntries page
      let (slots, buckets) ← outlineSlots K V withEntries directory count (slot + 1) (page :: seen)
      return ((page, depth) :: slots, bucket :: buckets)

/-- Reads the directories in `count` slots of the header from `slot` on. -/
def outlineDirectories (K V : Type) [FixedWidth K] [FixedWidth V] (withEntries : Bool)
    (header : Header pageSize) : (count slot : Nat) → Pool.Action σ (List (DirectoryOutline K V))
  | 0, _ => return []
  | count + 1, slot => do
    let page ← header.directory slot
    if !page.isValid then outlineDirectories K V withEntries header count (slot + 1)
    else
      let first ← holding page do
        let directory ← view page Directory.ofBytes
        let maxDepth ← directory.maxDepth
        let globalDepth ← directory.globalDepth
        let (slots, buckets) ← outlineSlots K V withEntries directory (← directory.size) 0 []
        return { headerSlot := slot, page, maxDepth, globalDepth, slots, buckets }
      return first :: (← outlineDirectories K V withEntries header count (slot + 1))

def outline (table : Table K V) (withEntries : Bool) : Pool.Action σ (Outline K V) :=
  holding table.header do
    let header ← view table.header Header.ofBytes
    return { depth := ← header.depth
             directories := ← outlineDirectories K V withEntries header (← header.size) 0 }

end Table

end PagedIndex
