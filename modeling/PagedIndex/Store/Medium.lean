import PagedIndex.Store.Ram
import PagedIndex.Store.Volume

/-!
# Media

The kinds of stores that a caller may choose between at run time.
-/

namespace PagedIndex

inductive Medium where
  | memory (store : RamStore)
  | file (store : FileStore)
  /-- A store that gives up on every request. -/
  | broken

namespace Medium

/-- Runs an action of a part as one of the whole. -/
def within {σ τ α : Type} (whole : σ → τ) (part : σ) (action : EStateM Failure σ α) :
    EStateM Failure τ α :=
  fun _ =>
    match action part with
    | .ok value part => .ok value (whole part)
    | .error failure part => .error failure (whole part)

def read (page : PageId) : EStateM Failure Medium Page := do
  match ← get with
  | memory store => within memory store (BackingStore.read page)
  | file store => within file store (BackingStore.read page)
  | broken => throw (.violation .storeAborted)

def write (page : PageId) (data : Page) : EStateM Failure Medium Unit := do
  match ← get with
  | memory store => within memory store (BackingStore.write page data)
  | file store => within file store (BackingStore.write page data)
  | broken => throw (.violation .storeAborted)

def bound : Medium → Outcome UInt32
  | memory store => BackingStore.bound store
  | file store => BackingStore.bound store
  | broken => return 0

instance : BackingStore Medium where
  read := read
  write := write
  bound := bound

/-- A file of a volume, made new if there is none. -/
def ofVolume (name : String) (volume : Volume) : Outcome Medium :=
  match Volume.ensure name volume with
  | .ok handle volume => return file ⟨volume, handle⟩
  | .error failure _ => throw failure

/-- The same pages for the next pool: a file is opened anew. -/
def reopen : Medium → Outcome Medium
  | file store => ofVolume store.handle.name store.volume
  | medium => return medium

/-- What is in memory, which is nothing for the other media. -/
def inMemory : Medium → RamStore
  | memory store => store
  | _ => .empty

def mapMemory (change : RamStore → RamStore) : Medium → Medium
  | memory store => memory (change store)
  | medium => medium

end Medium

end PagedIndex
