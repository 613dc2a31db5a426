import PagedIndex.LruK
import PagedIndex.Pool.Frame
import PagedIndex.Pool.Stats
import PagedIndex.Store.Worker

/-!
# The buffer pool

A fixed number of frames, through which all pages of a store are reached. A page in use is pinned in its
frame; of the others the replacer chooses which one makes room, and it is written back first if it is dirty.
-/

namespace PagedIndex

structure Pool (σ : Type) where
  frames : Array Frame
  /-- The frame of each page that is in the pool. -/
  residents : Std.TreeMap PageId FrameId
  /-- The frames without a page; the first of them is used next. -/
  free : List FrameId
  next : UInt32
  replacer : LruK
  disk : Worker σ
  stats : Stats

namespace Pool

variable {σ : Type} [BackingStore σ]

/-- A step of the pool. What it did before it failed is kept. -/
abbrev Action (σ : Type) := EStateM Failure (Pool σ)

/-- A pool of `size` empty frames over a store. New pages are numbered from the end of the store on. -/
def create (size k : Nat) (store : σ) : Outcome (Pool σ) := do
  if size = 0 then throw (.violation .poolEmpty)
  let next ← BackingStore.bound store
  let replacer ← LruK.create size k
  return {
    frames := .replicate size Frame.empty
    residents := ∅
    free := (List.range size).map FrameId.mk
    next
    replacer
    disk := ⟨store, true⟩
    stats := {} }

/-! ### Parts of the pool -/

def frame (id : FrameId) : Action σ Frame := do
  match (← get).frames[id.index]? with
  | some frame => return frame
  | none => throw (.violation .outOfBounds)

def setFrame (id : FrameId) (frame : Frame) : Action σ Unit :=
  modify fun pool => { pool with frames := pool.frames.setIfInBounds id.index frame }

/-- The bytes of a frame's page, changed without a word about it. -/
def overwriteFrame (id : FrameId) (change : Page → Outcome Page) : Action σ Unit := do
  let found ← frame id
  setFrame id { found with page := ← change found.page }

def setDirty (id : FrameId) : Action σ Unit := do
  setFrame id { ← frame id with dirty := true }

def updateReplacer (change : LruK → Outcome LruK) : Action σ Unit := do
  let pool ← get
  let replacer ← change pool.replacer
  set { pool with replacer }

def count (bump : Stats → Stats) : Action σ Unit :=
  modify fun pool => { pool with stats := bump pool.stats }

/-- Has the worker serve a request. -/
def request (wanted : Request) : Action σ (Except Error Page) :=
  modifyGet fun pool =>
    let (answer, disk) := pool.disk.perform wanted
    (answer, { pool with disk })

/-- Goes on if there is an answer, and fails with the error otherwise. -/
def settle {α : Type} : Except Error α → Action σ α
  | .ok value => return value
  | .error error => throw (.error error)

/-! ### Pinning and making room -/

/-- Pins the page of a frame. The first pin withdraws it from eviction. -/
def pinFrame (id : FrameId) : Action σ Unit := do
  let pinned ← (← frame id).pin
  if pinned.pins = 1 then updateReplacer (·.permit id false)
  setFrame id pinned

/-- Writes the page of a frame to the store. The frame is clean afterwards, or dirty if that failed. -/
def save (id : FrameId) (page : PageId) : Action σ (Except Error Unit) := do
  let found ← frame id
  setFrame id { found with dirty := false }
  match ← request (.write page found.page) with
  | .ok _ =>
    count fun stats => { stats with writes := stats.writes + 1 }
    return .ok ()
  | .error error =>
    setDirty id
    return .error error

/-- An empty frame: the first free one, or else that of the victim. A victim that cannot be written back
stays as it was. -/
def claimFrame : Action σ FrameId := do
  let pool ← get
  match pool.free with
  | id :: rest =>
    set { pool with free := rest }
    return id
  | [] =>
    match pool.replacer.victim with
    | none => throw (.error .noFreeFrames)
    | some id =>
      let found ← frame id
      if let some page := found.holds then
        if found.dirty then settle (← save id page)
        modify fun pool => { pool with residents := pool.residents.erase page }
      updateReplacer (·.remove id)
      setFrame id Frame.empty
      count fun stats => { stats with evictions := stats.evictions + 1 }
      return id

/-- Puts a page into an empty frame, pinned once. The frame is left as it is otherwise: it was cleared when it
became empty, and what was done to it since, without a pin, shows in the page. -/
def occupy (id : FrameId) (page : PageId) : Action σ Unit := do
  setFrame id (← Frame.pin { ← frame id with holds := some page })
  modify fun pool => { pool with residents := pool.residents.insert page id }
  updateReplacer (·.access id)

/-! ### Pages -/

/-- A new page, pinned once. -/
def new : Action σ (PageId × FrameId) := do
  let id ← claimFrame
  let page : PageId := ⟨(← get).next⟩
  let next ← page.succ
  modify fun pool => { pool with next }
  occupy id page
  return (page, id)

/-- Pins a page, reading it from the store if it is not in the pool. -/
def fetch (page : PageId) : Action σ FrameId := do
  let pool ← get
  if !page.isValid || pool.next ≤ page.number then throw (.error (.invalidPageId page))
  match pool.residents[page]? with
  | some id =>
    pinFrame id
    updateReplacer (·.access id)
    count fun stats => { stats with hits := stats.hits + 1 }
    return id
  | none =>
    count fun stats => { stats with misses := stats.misses + 1 }
    let id ← claimFrame
    match ← request (.read page) with
    | .error error =>
      modify fun pool => { pool with free := pool.free ++ [id] }
      throw (.error error)
    | .ok bytes =>
      count fun stats => { stats with reads := stats.reads + 1 }
      overwriteFrame id fun _ => return bytes
      occupy id page
      return id

/-- Gives one pin of a page back, and says whether there was one. The last pin makes the page evictable. -/
def unpin (page : PageId) (dirty : Bool) : Action σ Bool := do
  match (← get).residents[page]? with
  | none => return false
  | some id =>
    match (← frame id).unpin? with
    | none => return false
    | some released =>
      setFrame id { released with dirty := released.dirty || dirty }
      if released.pins = 0 then
        match (← get).replacer.permit id true with
        | .ok replacer => modify fun pool => { pool with replacer }
        | .error _ => throw (.violation .replacerOutOfSync)
      return true

/-- Writes a page of the pool to the store, dirty or not. This is no access. -/
def flush (page : PageId) : Action σ Unit := do
  match (← get).residents[page]? with
  | none => throw (.error (.pageNotResident page))
  | some id =>
    pinFrame id
    let written ← save id page
    let _ ← unpin page false
    settle written

/-- Writes every page of the pool to the store, up to the first failure. -/
def flushAll : Action σ Unit := do
  (← get).residents.keys.forM flush

/-- Drops a page from the pool, unless it is pinned; says whether the page is gone. -/
def delete (page : PageId) : Action σ Bool := do
  if let some id := (← get).residents[page]? then
    if (← frame id).isPinned then return false
    match (← get).replacer.remove id with
    | .error _ => throw (.violation .replacerOutOfSync)
    | .ok replacer =>
      setFrame id Frame.empty
      modify fun pool => { pool with
        replacer
        residents := pool.residents.erase page
        free := pool.free ++ [id] }
  count fun stats => { stats with deletes := stats.deletes + 1 }
  return true

/-! ### What can be asked -/

def size (pool : Pool σ) : Nat := pool.frames.size

def freeCount (pool : Pool σ) : Nat := pool.free.length

def residentCount (pool : Pool σ) : Nat := pool.residents.size

def candidateCount (pool : Pool σ) : Nat := pool.replacer.candidates

def frameOf? (pool : Pool σ) (page : PageId) : Option Frame := do
  pool.frames[(← pool.residents[page]?).index]?

def contains (pool : Pool σ) (page : PageId) : Bool := pool.residents.contains page

def forgetStats (pool : Pool σ) : Pool σ := { pool with stats := {} }

/-- Reaches behind the pool to its store. -/
def mapStore (pool : Pool σ) (change : σ → σ) : Pool σ :=
  { pool with disk := { pool.disk with store := change pool.disk.store } }

end Pool

end PagedIndex
