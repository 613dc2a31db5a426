import PagedIndex.Store

/-!
# Workers

A worker owns a store and serves one request after the other. A store that gives up takes its worker with
it: that request and all later ones are answered with `schedulerShutdown`.
-/

namespace PagedIndex

inductive Request where
  | read (page : PageId)
  | write (page : PageId) (data : Page)

structure Worker (σ : Type) where
  store : σ
  running : Bool := true

namespace Worker

variable {σ : Type} [BackingStore σ]

/-- Hands a request to the store; a page written is answered with the page. -/
def execute : Request → EStateM Failure σ Page
  | .read page => BackingStore.read page
  | .write page data => do
    BackingStore.write page data
    return data

def perform (worker : Worker σ) (request : Request) : Except Error Page × Worker σ :=
  if !worker.running then (.error .schedulerShutdown, worker)
  else
    match execute request worker.store with
    | .ok page store => (.ok page, ⟨store, true⟩)
    | .error (.error error) store => (.error error, ⟨store, true⟩)
    | .error (.violation _) store => (.error .schedulerShutdown, ⟨store, false⟩)

end Worker

end PagedIndex
