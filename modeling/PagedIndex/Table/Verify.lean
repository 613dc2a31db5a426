import PagedIndex.Table

/-!
# Verifying

Every directory is checked by itself, and every entry is checked to lie where its hash leads.
-/

namespace PagedIndex.Table

open Pool (holding view)

variable {K V σ : Type} [FixedWidth K] [FixedWidth V] [BackingStore σ]

/-- Checks that each entry of a bucket routes to a slot of the header and to a slot of the directory, as far
as the `localSize` patterns of its low bits tell. -/
def verifyEntries (table : Table K V) (header : Header pageSize) (headerSlot : Nat) (directory : PageId)
    (slot localSize : Nat) (bucketPage : PageId) (bucket : Bucket K V pageSize) : Outcome Unit := do
  foldUp (fun entry _ => do
    let hash := table.hash (← bucket.key entry)
    if (← header.slotFor hash) ≠ headerSlot ∨ hash.toNat % localSize ≠ slot % localSize then
      throw (.error (.corruptDirectory (.strayEntry entry bucketPage slot directory))))
    (← bucket.size) 0 ()

/-- Checks a directory and the buckets in its slots, each bucket where it stands first. -/
def verifyDirectory (table : Table K V) (header : Header pageSize) (headerSlot : Nat) :
    Pool.Action σ Unit := do
  let page ← header.directory headerSlot
  if !page.isValid then return ()
  holding page do
    let directory ← view page Directory.ofBytes
    directory.verify
    let _ ← foldUp (fun slot seen => do
      let bucket ← directory.bucket slot
      if !bucket.isValid || seen.contains bucket then return seen
      let localSize ← directory.localSize slot
      holding bucket (view bucket fun bytes => do
        table.verifyEntries header headerSlot page slot localSize bucket (← Bucket.ofBytes bytes))
      return bucket :: seen) (← directory.size) 0 ([] : List PageId)

def verify (table : Table K V) : Pool.Action σ Unit :=
  holding table.header do
    let header ← view table.header Header.ofBytes
    foldUp (fun slot _ => table.verifyDirectory header slot) (← header.size) 0 ()

end PagedIndex.Table
