import PagedIndex.Format.Directory
import PagedIndex.Format.Header
import PagedIndex.Pool.Pin
import PagedIndex.Table.Options

/-!
# Hash tables on pages

A header page routes the top bits of a key's hash to a directory page, the directory routes the low bits to
a bucket page, and the bucket holds the entries. Every page is reached through the pool, and at most three
are pinned at a time.
-/

namespace PagedIndex

structure Table (K V : Type) where
  name : String
  compare : K → K → Ordering
  hash : K → UInt32
  /-- The header page, by which the table is found again. -/
  header : PageId
  /-- How deep a new directory may grow. -/
  directoryDepth : Nat
  /-- How many entries the first bucket of a directory may hold; later ones take after it. -/
  bucketSize : Nat

namespace Table

open Pool (keeping holding view amend)

variable {K V σ : Type} [FixedWidth K] [FixedWidth V] [BackingStore σ]

/-- The table whose header is a given page. -/
def ofHeader (name : String) (compare : K → K → Ordering) (hash : K → UInt32) (header : PageId)
    (options : Options) : Table K V where
  name
  compare
  hash
  header
  directoryDepth := options.directoryDepth
  bucketSize := options.bucketLimit K V

def create (name : String) (compare : K → K → Ordering) (hash : K → UInt32) (options : Options) :
    Pool.Action σ (Table K V) := do
  options.check K V
  let (header, _) ← Pool.new
  keeping header (amend header fun page => do return (← Header.format page options.headerDepth).bytes)
  return ofHeader name compare hash header options

/-- A table that was made earlier. The options hold for the pages it takes from now on. -/
def attach (name : String) (compare : K → K → Ordering) (hash : K → UInt32) (header : PageId)
    (options : Options) : Pool.Action σ (Table K V) := do
  options.check K V
  let _ ← holding header (view header Header.ofBytes)
  return ofHeader name compare hash header options

/-! ### Routing -/

/-- The directory page that a header page lists for a hash. -/
def directoryIn (hash : UInt32) (page : Page) : Outcome PageId := do
  let header ← Header.ofBytes page
  header.directory (← header.slotFor hash)

/-- The slot of a hash in a directory page, and the bucket page in it. -/
def bucketIn (hash : UInt32) (page : Page) : Outcome (Nat × PageId) := do
  let directory ← Directory.ofBytes page
  let slot ← directory.slotFor hash
  return (slot, ← directory.bucket slot)

/-- The directory page for a hash, pinned if there is one. -/
def pinDirectory (table : Table K V) (hash : UInt32) : Pool.Action σ PageId :=
  holding table.header do
    let directory ← view table.header (directoryIn hash)
    if directory.isValid then
      let _ ← Pool.fetch directory
    return directory

/-- The bucket page for a hash, pinned if there is one; the pin of its directory is given back. -/
def pinBucket (directory : PageId) (hash : UInt32) : Pool.Action σ PageId :=
  keeping directory do
    let (_, bucket) ← view directory (bucketIn hash)
    if bucket.isValid then
      let _ ← Pool.fetch bucket
    return bucket

/-! ### Looking up -/

/-- The values stored under a key, oldest first. -/
def find (table : Table K V) (key : K) : Pool.Action σ (List V) := do
  let hash := table.hash key
  let directory ← table.pinDirectory hash
  if !directory.isValid then return []
  let bucket ← pinBucket directory hash
  if !bucket.isValid then return []
  keeping bucket (view bucket fun page => do
    let bucket : Bucket K V pageSize ← Bucket.ofBytes page
    bucket.lookup table.compare key)

end Table

end PagedIndex
