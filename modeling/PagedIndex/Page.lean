import PagedIndex.Buffer
import PagedIndex.Limits

/-!
# Pages

The unit of storage, and the tag in its first byte.
-/

namespace PagedIndex

abbrev Page := Buffer pageSize

/-- The page that was never written. -/
def Page.zero : Page := .filled pageSize 0

namespace PageKind

variable {n : Nat}

/-- The kind that a buffer's first byte marks. -/
def read (buffer : Buffer n) : Outcome PageKind := do
  return ofTag (← buffer.byte 0)

/-- `buffer` with this kind's tag in its first byte. -/
def stamp (kind : PageKind) (buffer : Buffer n) : Outcome (Buffer n) := buffer.setByte 0 kind.tag

def expect (kind : PageKind) (buffer : Buffer n) : Outcome Unit := do
  let found ← read buffer
  if found = kind then pure () else throw (.error (.pageKindMismatch kind found))

end PageKind

end PagedIndex
