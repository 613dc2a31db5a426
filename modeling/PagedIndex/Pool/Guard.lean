import PagedIndex.Pool

/-!
# Page guards

A guard owns one pin of a page and gives it back once, when it is released. It remembers whether the page
was changed through it, and says so only then.
-/

namespace PagedIndex

/-- What a guard lets its holder do. -/
inductive Access where
  | basic
  | read
  | write
  deriving DecidableEq

/-- The pin that a guard owns. -/
structure Lease where
  page : PageId
  frame : FrameId
  dirty : Bool := false
  deriving DecidableEq

structure Guard where
  access : Access
  /-- None once the guard is released. -/
  lease : Option Lease
  deriving DecidableEq

namespace Guard

variable {σ : Type} [BackingStore σ]

def fetch (page : PageId) (access : Access) : Pool.Action σ Guard := do
  let frame ← Pool.fetch page
  return ⟨access, some { page, frame }⟩

def new : Pool.Action σ Guard := do
  let (page, frame) ← Pool.new
  return ⟨.basic, some { page, frame }⟩

/-- Moves the pin of a guard into a guard of another kind. -/
def upgrade (guard : Guard) (access : Access) : Guard := { guard with access }

def isReleased (guard : Guard) : Bool := guard.lease.isNone

/-- The pin of a guard that was not released. -/
def held (guard : Guard) : Outcome Lease :=
  match guard.lease with
  | some lease => return lease
  | none => throw (.violation .guardReleased)

def page (guard : Guard) : Outcome PageId := do return (← guard.held).page

/-- Notes that the page is being changed through this guard. -/
def noteChange (guard : Guard) : Outcome Guard := do
  let lease ← guard.held
  return { guard with lease := some { lease with dirty := true } }

def read (guard : Guard) : Pool.Action σ Page := do
  let lease ← guard.held
  return (← Pool.frame lease.frame).page

def modify (guard : Guard) (change : Page → Outcome Page) : Pool.Action σ Guard := do
  let lease ← guard.held
  let guard ← guard.noteChange
  Pool.overwriteFrame lease.frame change
  return guard

/-- Gives the pin back; a released guard has none to give. -/
def release (guard : Guard) : Pool.Action σ Guard := do
  if let some lease := guard.lease then
    let _ ← Pool.unpin lease.page lease.dirty
  return { guard with lease := none }

end Guard

end PagedIndex
