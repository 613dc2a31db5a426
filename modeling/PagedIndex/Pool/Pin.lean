import PagedIndex.Pool

/-!
# Working on pinned pages

An operation that reaches several pages pins each of them while it needs it, and gives the pin back however
it ends. It marks a page dirty when it changes it; nobody looks at the mark of a pinned page in between.
-/

namespace PagedIndex.Pool

variable {σ : Type} [BackingStore σ] {α : Type}

/-- Runs an action and gives a pin back afterwards, also when the action fails. -/
def keeping (page : PageId) (action : Action σ α) : Action σ α := fun pool =>
  match action pool with
  | .ok value pool => (do let _ ← unpin page false; return value) pool
  | .error failure pool => (do let _ ← unpin page false; throw failure) pool

/-- Runs an action that takes over a pin; it is given back only when the action fails. -/
def entrusting (page : PageId) (action : Action σ α) : Action σ α := fun pool =>
  match action pool with
  | .ok value pool => .ok value pool
  | .error failure pool => (do let _ ← unpin page false; throw failure) pool

/-- Pins a page for the time of an action. -/
def holding (page : PageId) (action : Action σ α) : Action σ α := do
  let _ ← fetch page
  keeping page action

def residence (page : PageId) : Action σ FrameId := do
  match (← get).residents[page]? with
  | some id => return id
  | none => throw (.error (.pageNotResident page))

/-- Looks at the bytes of a pinned page. -/
def view (page : PageId) (look : Page → Outcome α) : Action σ α := do
  look (← frame (← residence page)).page

def touch (page : PageId) : Action σ Unit := do setDirty (← residence page)

/-- Changes the bytes of a pinned page. The page is dirty from then on, even when the change fails. -/
def edit (page : PageId) (change : Page → Outcome (α × Page)) : Action σ α := do
  touch page
  let id ← residence page
  let found ← frame id
  let (value, bytes) ← change found.page
  setFrame id { found with page := bytes }
  return value

/-- Changes the bytes of a pinned page, with nothing to report. -/
def amend (page : PageId) (change : Page → Outcome Page) : Action σ Unit :=
  edit page fun bytes => do return ((), ← change bytes)

end PagedIndex.Pool
