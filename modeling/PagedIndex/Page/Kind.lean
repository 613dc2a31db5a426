/-!
# Page kinds

The first byte of a structured page says what the page holds.
-/

namespace PagedIndex

inductive PageKind where
  | unformatted
  | header
  | directory
  | bucket
  deriving DecidableEq

namespace PageKind

def tag : PageKind → UInt8
  | unformatted => 0
  | header => 1
  | directory => 2
  | bucket => 3

/-- The kind that a tag marks; an unknown tag marks an unformatted page. -/
def ofTag (byte : UInt8) : PageKind :=
  if byte = 1 then header
  else if byte = 2 then directory
  else if byte = 3 then bucket
  else unformatted

theorem ofTag_tag (kind : PageKind) : ofTag kind.tag = kind := by cases kind <;> rfl

def text : PageKind → String
  | unformatted => "Invalid"
  | header => "HashTableHeader"
  | directory => "HashTableDirectory"
  | bucket => "HashTableBucket"

end PageKind

end PagedIndex
