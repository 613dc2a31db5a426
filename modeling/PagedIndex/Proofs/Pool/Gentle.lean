import Mathlib
import PagedIndex.Ascent
import PagedIndex.Pool.Pin
import PagedIndex.Proofs.Pool.Coherence

/-!
# Actions that mark no page

Whoever only looks at pages has them brought into the pool, and others written back to make room for them, but
marks none of them as changed.
-/

namespace PagedIndex.Pool

variable {σ α β : Type} {pool middle later : Pool σ} {spare ready : List FrameId} {page : PageId}

/-- A page is in the pool, and is marked as changed. -/
def Dirty (pool : Pool σ) (page : PageId) : Prop := ∃ frame, pool.frameOf? page = some frame ∧ frame.dirty = true

/-- The books are in order, and a frame without a page is clean. -/
structure Swept (spare : List FrameId) (pool : Pool σ) : Prop where
  kept : Bookkept spare pool
  blank : ∀ frame ∈ pool.frames, frame.holds = none → frame = Frame.empty

/-- The books are still in order, and no page is marked that was not before. -/
structure Unmarked (spare : List FrameId) (pool later : Pool σ) : Prop extends Swept spare later where
  dirty : ∀ page, later.Dirty page → pool.Dirty page

theorem Swept.unmarked (swept : Swept spare pool) : Unmarked spare pool pool := ⟨swept, fun _ => id⟩

theorem Unmarked.trans (first : Unmarked spare pool middle) (second : Unmarked ready middle later) :
    Unmarked ready pool later :=
  ⟨second.toSwept, fun page dirty => first.dirty page (second.dirty page dirty)⟩

theorem Swept.of_same (swept : Swept spare pool) (kept : Bookkept ready later) (frames : later.frames = pool.frames)
    (residents : later.residents = pool.residents) : Unmarked ready pool later := by
  refine ⟨⟨kept, by rw [frames]; exact swept.blank⟩, fun page dirty => ?_⟩
  rwa [Dirty, frameOf?_congr frames residents] at dirty

section

variable {id : FrameId} {frame fresh : Frame} {history : AccessHistory}

theorem Swept.reframed (swept : Swept spare pool) (seat : pool.Seat page id frame history) (kept : Bookkept spare later)
    (frames : later.frames = pool.frames.setIfInBounds id.index fresh) (residents : later.residents = pool.residents)
    (holds : fresh.holds = some page) (clean : fresh.dirty = true → frame.dirty = true) :
    Unmarked spare pool later := by
  refine ⟨⟨kept, ?_⟩, ?_⟩
  · rw [frames]
    exact blank_set swept.blank fun bare => by
      rw [holds] at bare
      cases bare
  · rintro other ⟨found, present, dirty⟩
    have placed : later.frameOf? other = (pool.place id fresh).frameOf? other := by
      rw [frameOf?_def, frameOf?_def, residents, frames]
      rfl
    rw [placed, swept.kept.frameOf?_place seat] at present
    split at present
    · rename_i same
      subst same
      cases present
      exact ⟨frame, seat.frameOf?, clean dirty⟩
    · exact ⟨found, present, dirty⟩

theorem Unpinned.unmarked {result : Result σ Bool} (unpinned : Unpinned pool page false result)
    (swept : Swept [] pool) : ∃ answer later, result = .ok answer later ∧ Unmarked [] pool later := by
  cases unpinned with
  | absent => exact ⟨_, _, rfl, swept.unmarked⟩
  | unpinned => exact ⟨_, _, rfl, swept.unmarked⟩
  | released seat pinned =>
    refine ⟨_, _, rfl, swept.reframed seat (swept.kept.released seat pinned false) rfl rfl seat.holds fun dirty => ?_⟩
    simpa using dirty

variable [BackingStore σ]

theorem Claimed.unmarked_ok (claimed : Claimed pool (.ok id later)) (swept : Swept [] pool) :
    Unmarked [id] pool later := by
  refine ⟨⟨claimed.kept_ok swept.kept, claimed.blank swept.blank⟩, ?_⟩
  · rintro other ⟨found, present, dirty⟩
    rcases claimed.frameOf?_ok swept.kept other with same | ⟨gone, _⟩
    · exact ⟨found, same ▸ present, dirty⟩
    · rw [gone] at present
      cases present

theorem Claimed.unmarked_error {failure : Failure} (claimed : Claimed pool (.error failure later))
    (swept : Swept [] pool) : Unmarked [] pool later := by
  have kept := claimed.kept_error swept.kept
  cases claimed with
  | crowded => exact swept.unmarked
  | unsaved => exact swept.of_same kept rfl rfl

theorem Fetched.unmarked {result : Result σ FrameId} (fetched : Fetched pool page result) (swept : Swept [] pool) :
    Unmarked [] pool (left result) := by
  have missed : Unmarked [] pool pool.missed := swept.of_same swept.kept.missed rfl rfl
  cases fetched with
  | unknown => exact swept.unmarked
  | hit known seat room => exact swept.reframed seat (swept.kept.hit seat) rfl rfl seat.holds id
  | full => exact swept.unmarked
  | refused absent claimed => exact missed.trans (claimed.unmarked_error missed.toSwept)
  | @unread id later error disk absent claimed failed =>
    have taken := missed.trans (claimed.unmarked_ok missed.toSwept)
    have listed : Bookkept [] { later with free := later.free ++ [id] } :=
      taken.kept.reorder (List.perm_append_singleton id _)
    exact taken.trans (taken.toSwept.of_same (listed.of_same rfl rfl rfl rfl (UInt32.le_refl _)) rfl rfl)
  | @loaded id frame later bytes disk known absent claimed idle served =>
    have taken := missed.trans (claimed.unmarked_ok missed.toSwept)
    have clean : frame = Frame.empty := taken.blank frame (Array.mem_of_getElem? idle.frame_at) idle.holds
    have next : later.next = pool.next := claimed.next_eq
    have read : Unmarked [id] pool (later.didRead disk) := taken.trans
      (taken.toSwept.of_same (taken.kept.of_same rfl rfl rfl rfl (UInt32.le_refl _)) rfl rfl)
    have shown := read.kept.frameOf?_install page { frame with page := bytes }
    refine ⟨⟨read.kept.install (claimed.absent absent) (by
      change page.number < later.next
      rw [next]
      exact known.2) _, blank_set read.blank fun bare => by cases bare⟩, ?_⟩
    rintro other ⟨found, present, dirty⟩
    have there := (shown other).symm.trans present
    split at there
    · cases there
      rw [show frame = Frame.empty from clean] at dirty
      cases dirty
    · exact read.dirty other ⟨found, there, dirty⟩

end

/-! ### Actions -/

/-- No page is marked if it came to an end that counts: some value, or a failure. -/
def Clean (counts : Option α → Prop) (pool : Pool σ) : Result σ α → Prop
  | .ok value later => counts (some value) → Unmarked [] pool later
  | .error _ later => counts none → Unmarked [] pool later

def Gentle (counts : Option α → Prop) (action : Action σ α) : Prop :=
  ∀ pool, Swept [] pool → Clean counts pool (action pool)

/-- Whatever an action comes to, it marks no page. -/
abbrev Mild (action : Action σ α) : Prop := Gentle (fun _ => True) action

/-- An action comes to no end that counts. -/
def Never (counts : Option α → Prop) (action : Action σ α) : Prop := ∀ pool,
  match action pool with
  | .ok value _ => ¬ counts (some value)
  | .error _ _ => ¬ counts none

variable {action : Action σ α} {rest : α → Action σ β} {counts : Option β → Prop} {heard : Option α → Prop}

theorem Unmarked.clean {result : Result σ α} (unmarked : Unmarked [] pool (left result)) : Clean heard pool result := by
  cases result <;> exact fun _ => unmarked

theorem Clean.after {result : Result σ α} (unmarked : Unmarked [] pool middle) (clean : Clean heard middle result) :
    Clean heard pool result := by
  cases result <;> exact fun counted => unmarked.trans (clean counted)

theorem Never.clean (never : Never heard action) : Clean heard pool (action middle) := by
  have uncounted := never middle
  cases run : action middle with
  | ok value later =>
    rw [run] at uncounted
    exact fun counted => absurd counted uncounted
  | error failure later =>
    rw [run] at uncounted
    exact fun counted => absurd counted uncounted

theorem Gentle.mono {fewer : Option α → Prop} (gentle : Gentle heard action)
    (counted : ∀ ending, fewer ending → heard ending) : Gentle fewer action := by
  intro pool swept
  have clean := gentle pool swept
  cases run : action pool <;> rw [run] at clean <;> exact fun counts => clean (counted _ counts)

theorem Gentle.of_uncounted (uncounted : ∀ ending, ¬ heard ending) : Gentle heard action := by
  intro pool swept
  cases run : action pool <;> exact fun counts => absurd counts (uncounted _)

theorem Never.gentle (never : Never heard action) : Gentle heard action := fun _ _ => never.clean

/-- If the first of two actions comes to an end that does not count, then both do. -/
theorem Gentle.bind_counted (first : Gentle heard action) (fails : counts none → heard none)
    (second : ∀ value, heard (some value) ∧ Gentle counts (rest value) ∨ Never counts (rest value)) :
    Gentle counts (action >>= rest) := by
  intro pool swept
  have before := first pool swept
  cases run : action pool with
  | error failure later =>
    rw [run] at before
    rw [bind_error run]
    exact fun counted => before (fails counted)
  | ok value middle =>
    rw [run] at before
    rw [bind_ok run]
    rcases second value with ⟨counted, gentle⟩ | never
    · exact .after (before counted) (gentle middle (before counted).toSwept)
    · exact never.clean

theorem Gentle.bind (first : Mild action) (second : ∀ value, Gentle counts (rest value)) :
    Gentle counts (action >>= rest) :=
  first.bind_counted (fun _ => trivial) fun value => .inl ⟨trivial, second value⟩

theorem Never.bind (fails : ¬ counts none) (second : ∀ value, Never counts (rest value)) :
    Never counts (action >>= rest) := by
  intro pool
  cases run : action pool with
  | ok value middle =>
    rw [bind_ok run]
    exact second value middle
  | error failure later =>
    rw [bind_error run]
    exact fails

theorem Never.pure {value : α} (uncounted : ¬ heard (some value)) : Never heard (Pure.pure value : Action σ α) :=
  fun _ => uncounted

theorem Never.throw (uncounted : ¬ heard none) (failure : Failure) : Never heard (throw failure : Action σ α) :=
  fun _ => uncounted

theorem Never.lift_bind {outcome : Outcome α} (fails : ¬ counts none)
    (second : ∀ value, outcome = .ok value → Never counts (rest value)) :
    Never counts ((liftM outcome : Action σ α) >>= rest) := by
  intro pool
  cases done : outcome with
  | ok value =>
    rw [bind_ok (lift_ok rfl)]
    exact second value done pool
  | error failure =>
    rw [bind_error (lift_error rfl)]
    exact fails

theorem Never.edit {change : Page → Outcome (α × Page)} (fails : ¬ heard none)
    (uncounted : ∀ bytes value after, change bytes = .ok (value, after) → ¬ heard (some value)) :
    Never heard (Pool.edit page change : Action σ α) :=
  .bind fails fun _ => .bind fails fun _ => .bind fails fun found => .lift_bind fails fun (value, after) changes =>
    .bind fails fun _ => .pure (uncounted found.page value after changes)

theorem Gentle.pure (value : α) : Gentle heard (Pure.pure value : Action σ α) := fun _ swept => swept.unmarked.clean

theorem Gentle.throw (failure : Failure) : Gentle heard (throw failure : Action σ α) := fun _ swept =>
  swept.unmarked.clean

theorem Gentle.lift (outcome : Outcome α) : Gentle heard (liftM outcome : Action σ α) := by
  intro pool swept
  cases done : outcome with
  | ok value =>
    rw [lift_ok rfl]
    exact swept.unmarked.clean
  | error failure =>
    rw [lift_error rfl]
    exact swept.unmarked.clean

theorem Gentle.unpin {heard : Option Bool → Prop} (page : PageId) :
    Gentle heard (Pool.unpin page false : Action σ Bool) := by
  intro pool swept
  obtain ⟨answer, later, done, unmarked⟩ := (swept.kept.unpin page false).unmarked swept
  rw [done]
  exact unmarked.clean

theorem Gentle.residence {heard : Option FrameId → Prop} (page : PageId) :
    Gentle heard (Pool.residence page : Action σ FrameId) := by
  intro pool swept
  rw [Pool.residence, get_bind]
  cases pool.residents[page]? <;> exact swept.unmarked.clean

theorem Gentle.frame {heard : Option Frame → Prop} (id : FrameId) : Gentle heard (Pool.frame id : Action σ Frame) := by
  intro pool swept
  rw [Pool.frame, get_bind]
  cases pool.frames[id.index]? <;> exact swept.unmarked.clean

theorem Gentle.view (page : PageId) (look : Page → Outcome α) : Gentle heard (Pool.view page look : Action σ α) :=
  .bind (.residence page) fun id => .bind (.frame id) fun _ => .lift _

theorem Clean.rethrown (before : heard none → Unmarked [] pool middle) (failure : Failure) :
    Clean heard pool ((do let _ ← Pool.unpin page false; throw failure : Action σ α) middle) := by
  by_cases counted : heard none
  · have gentle : Gentle heard (do let _ ← Pool.unpin page false; throw failure : Action σ α) :=
      .bind (.unpin page) fun _ => .throw failure
    exact .after (before counted) (gentle middle (before counted).toSwept)
  · exact (Never.bind counted fun _ => .throw counted failure).clean

/-- If a failure counts, then so does every value: the pin that is given back might fail. -/
theorem Gentle.keeping (fails : heard none → ∀ value, heard (some value)) (inner : Gentle heard action) :
    Gentle heard (Pool.keeping page action) := by
  intro pool swept
  have before := inner pool swept
  rw [Pool.keeping]
  cases run : action pool with
  | error failure middle =>
    rw [run] at before
    exact .rethrown before failure
  | ok value middle =>
    rw [run] at before
    by_cases counted : heard (some value)
    · have gentle : Gentle heard (do let _ ← Pool.unpin page false; return value : Action σ α) :=
        .bind (.unpin page) fun _ => .pure value
      exact .after (before counted) (gentle middle (before counted).toSwept)
    · exact (Never.bind (fun failed => counted (fails failed value)) fun _ => .pure counted).clean

theorem Gentle.entrusting (inner : Gentle heard action) : Gentle heard (Pool.entrusting page action) := by
  intro pool swept
  have before := inner pool swept
  rw [Pool.entrusting]
  cases run : action pool with
  | error failure middle =>
    rw [run] at before
    exact .rethrown before failure
  | ok value middle =>
    rw [run] at before
    exact before

theorem Gentle.foldUp {step : Nat → α → Action σ α} (each : ∀ i value, Mild (step i value)) (count start : Nat)
    (value : α) : Mild (PagedIndex.foldUp step count start value) := by
  induction count generalizing start value with
  | zero => exact .pure value
  | succ count ih => exact .bind (each start value) fun next => ih (start + 1) next

variable [BackingStore σ]

theorem Gentle.fetch {heard : Option FrameId → Prop} (page : PageId) :
    Gentle heard (Pool.fetch page : Action σ FrameId) := fun _ swept =>
  ((swept.kept.fetch page).unmarked swept).clean

theorem Gentle.holding (inner : Mild action) : Mild (Pool.holding page action) :=
  .bind (.fetch page) fun _ => inner.keeping fun _ _ => trivial

end PagedIndex.Pool
