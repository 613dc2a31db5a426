import PagedIndex.Format.Bucket

/-!
# Table options

How deep a table may grow and how many entries its buckets hold.
-/

namespace PagedIndex.Table

structure Options where
  /-- Hash bits that choose a directory. -/
  headerDepth : Nat := maxHeaderDepth
  /-- The most hash bits that choose a bucket of a directory. -/
  directoryDepth : Nat := maxDirectoryDepth
  /-- Entries to a bucket; as many as fit in a page if none is given. -/
  bucketSize : Option Nat := none
  deriving DecidableEq

namespace Options

variable (K V : Type) [FixedWidth K] [FixedWidth V]

def bucketLimit (options : Options) : Nat := options.bucketSize.getD (Bucket.capacity K V)

/-- Checks every limit against what the page formats hold. -/
def check (options : Options) : Outcome Unit :=
  let bucketSize := options.bucketLimit K V
  let capacity := Bucket.capacity K V
  if maxHeaderDepth < options.headerDepth then
    throw (.error (.invalidConfig (.headerDepth options.headerDepth maxHeaderDepth)))
  else if maxDirectoryDepth < options.directoryDepth then
    throw (.error (.invalidConfig (.directoryDepth options.directoryDepth maxDirectoryDepth)))
  else if bucketSize = 0 ∨ capacity < bucketSize then
    throw (.error (.invalidConfig (.bucketSize bucketSize capacity)))
  else return ()

end Options

end PagedIndex.Table
