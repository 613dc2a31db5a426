import PagedIndex.Table

/-!
# Removing

All entries under a key go at once. A bucket left empty is united with its split image, and the directory
shrinks as far as it can.
-/

namespace PagedIndex.Table

open Pool (keeping holding entrusting view edit amend)

variable {K V σ : Type} [FixedWidth K] [FixedWidth V] [BackingStore σ]

/-- Whether a bucket page holds no entry. -/
def isEmptyIn (K V : Type) [FixedWidth K] [FixedWidth V] (page : Page) : Outcome Bool := do
  let bucket : Bucket K V pageSize ← Bucket.ofBytes page
  bucket.isEmpty

/-- Takes the entries under a key out of a pinned bucket. The answer is none if there are none, and else
whether the bucket is empty now. -/
def eraseIn (table : Table K V) (bucket : PageId) (key : K) : Pool.Action σ (Option Bool) := do
  let found ← view bucket fun page => do
    let bucket : Bucket K V pageSize ← Bucket.ofBytes page
    bucket.lookup table.compare key
  if found.isEmpty then return none
  edit bucket fun page => do
    let bucket : Bucket K V pageSize ← Bucket.ofBytes page
    let (_, left) ← bucket.erase table.compare key
    return (some (← left.isEmpty), left.bytes)

/-- Gives the slots of an emptied bucket to its buddy. Both are pinned; the emptied page is deleted. -/
def absorb (directory : PageId) (depth : Nat) (kept emptied : PageId) : Pool.Action σ Unit := do
  amend directory fun page => do
    return (← (← Directory.ofBytes page).unite kept emptied depth).bytes
  let _ ← Pool.unpin emptied false
  let _ ← Pool.delete emptied

/-- Unites the pinned bucket behind a slot with its buddy, if one of them is empty. The page that is left
is pinned, and the answer is its slot and its number; the other page is deleted. If there is nothing to
unite, the bucket stays pinned. -/
def uniteOnce (K V : Type) [FixedWidth K] [FixedWidth V] (directory : PageId) (slot : Nat)
    (bucket : PageId) : Pool.Action σ (Option (Nat × PageId)) := do
  match ← view directory fun page => do (← Directory.ofBytes page).buddy? slot bucket with
  | none => return none
  | some (depth, image) =>
    let _ ← Pool.fetch image
    entrusting image do
      let bucketEmpty ← view bucket (isEmptyIn K V)
      let imageEmpty ← view image (isEmptyIn K V)
      if !bucketEmpty && !imageEmpty then
        let _ ← Pool.unpin image false
        return none
      let (kept, emptied) := if bucketEmpty then (image, bucket) else (bucket, image)
      absorb directory (depth - 1) kept emptied
      return some (slot % Nat.pow 2 (depth - 1), kept)

/-- Unites the pinned bucket behind a slot with one buddy after the other, at most `rounds` times, and gives
the pin back. -/
def uniteWithin (K V : Type) [FixedWidth K] [FixedWidth V] (directory : PageId) :
    (rounds slot : Nat) → (bucket : PageId) → Pool.Action σ Unit
  | 0, _, bucket => do
    let _ ← Pool.unpin bucket false
  | rounds + 1, slot, bucket => do
    match ← entrusting bucket (uniteOnce K V directory slot bucket) with
    | none =>
      let _ ← Pool.unpin bucket false
    | some (slot, kept) => uniteWithin K V directory rounds slot kept

/-- Unites an emptied bucket as far as that goes, then shrinks the directory as far as that goes. Each round
takes a page out of the directory, so there are no more rounds than slots. -/
def reclaim (K V : Type) [FixedWidth K] [FixedWidth V] (directory : PageId) (slot : Nat) (bucket : PageId) :
    Pool.Action σ Unit := do
  let rounds ← entrusting bucket do
    Pool.touch directory
    view directory fun page => do (← Directory.ofBytes page).size
  uniteWithin K V directory rounds slot bucket
  amend directory fun page => do return (← (← Directory.ofBytes page).halveFully).bytes

/-- Takes every entry under a key out of a pinned directory; says whether there was one. -/
def removeIn (table : Table K V) (directory : PageId) (key : K) : Pool.Action σ Bool := do
  let (slot, bucket) ← view directory (bucketIn (table.hash key))
  if !bucket.isValid then return false
  let _ ← Pool.fetch bucket
  match ← entrusting bucket (table.eraseIn bucket key) with
  | none =>
    let _ ← Pool.unpin bucket false
    return false
  | some emptied =>
    if emptied then reclaim K V directory slot bucket
    else
      let _ ← Pool.unpin bucket false
    return true

/-- Takes out every entry under a key; says whether there was one. -/
def remove (table : Table K V) (key : K) : Pool.Action σ Bool := do
  let directory ← table.pinDirectory (table.hash key)
  if !directory.isValid then return false
  keeping directory (table.removeIn directory key)

end PagedIndex.Table
