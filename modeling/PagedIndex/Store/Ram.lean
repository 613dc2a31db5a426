import PagedIndex.Store

/-!
# Pages in memory

A store that counts the requests it served and can be told to refuse them.
-/

namespace PagedIndex

structure RamStore where
  pages : Std.TreeMap PageId Page := ∅
  /-- One past the highest page written. -/
  extent : Nat := 0
  reads : Nat := 0
  writes : Nat := 0
  refusesReads : Bool := false
  refusesWrites : Bool := false

namespace RamStore

def empty : RamStore := {}

def page? (store : RamStore) (page : PageId) : Option Page := store.pages[page]?

/-- A page that was never written reads as zeros. -/
def read (page : PageId) : EStateM Failure RamStore Page := do
  let store ← get
  if store.refusesReads then throw (.error (.io .readRefused))
  set { store with reads := store.reads + 1 }
  return (store.page? page).getD Page.zero

def write (page : PageId) (data : Page) : EStateM Failure RamStore Unit := do
  let store ← get
  if store.refusesWrites then throw (.error (.io .writeRefused))
  set { store with
    pages := store.pages.insert page data
    extent := max store.extent (page.number.toNat + 1)
    writes := store.writes + 1 }

def bound (store : RamStore) : Outcome UInt32 :=
  if store.extent < wordBound then return UInt32.ofNat store.extent
  else throw (.violation .overflow)

instance : BackingStore RamStore where
  read := read
  write := write
  bound := bound

end RamStore

end PagedIndex
