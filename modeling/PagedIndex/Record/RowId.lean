import PagedIndex.Limits
import PagedIndex.Record.Integer

/-!
# Row identifiers

A row is named by its page and its slot in that page.
-/

namespace PagedIndex

structure RowId where
  page : PageId
  slot : UInt32
  deriving DecidableEq

namespace RowId

/-- No row: slot 0 of no page. -/
instance : Inhabited RowId := ⟨⟨PageId.invalid, 0⟩⟩

/-- The page is stored before the slot. -/
instance : FixedWidth RowId where
  width := 8
  store row buffer := do
    let paged ← buffer.splice 0 (toLittleEndian 4 row.page.number.toNat)
    paged.amend 4 4 (FixedWidth.store row.slot)
  load buffer := do
    let page ← buffer.slice 0 4
    let slot ← FixedWidth.load (← buffer.slice 4 4)
    return ⟨⟨UInt32.ofNat (ofLittleEndian page)⟩, slot⟩

/-- A row in running text: `Rid(7, 3)`. -/
def text (row : RowId) : String :=
  "Rid(" ++ toString row.page.number ++ ", " ++ toString row.slot ++ ")"

/-- A row in a listing, field by field. -/
def listing (row : RowId) : String :=
  "Rid \x7b page_id: " ++ row.page.listing ++ ", slot_num: " ++ toString row.slot ++ " \x7d"

end RowId

end PagedIndex
