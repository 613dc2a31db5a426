/-!
# Limits

The sizes that the page formats and the pool share.
-/

namespace PagedIndex

def pageSize : Nat := 4096

/-- How many accesses of a frame the replacer remembers unless it is told otherwise. -/
def defaultHistoryDepth : Nat := 10

/-- The most hash bits a header page may route on. -/
def maxHeaderDepth : Nat := 9

/-- Directory slots in a header page. -/
def headerSlots : Nat := Nat.pow 2 maxHeaderDepth

/-- The most hash bits a directory page may route on. -/
def maxDirectoryDepth : Nat := 9

/-- Bucket slots in a directory page. -/
def directorySlots : Nat := Nat.pow 2 maxDirectoryDepth

/-- Bytes of a bucket page before its first entry. -/
def bucketPreamble : Nat := 12

/-- One past the largest 32-bit word. -/
def wordBound : Nat := 4294967296

end PagedIndex
