import Mathlib
import PagedIndex.Proofs.Pool.Balance

/-!
# Remembered accesses

The replacer remembers accesses of frames. Seen from outside they are accesses of the pages in them: a call adds one
to the page that it answers with, a page that leaves the pool is forgotten, and nothing else is.
-/

namespace PagedIndex

namespace LruK

variable {replacer : LruK} {frame other : FrameId} {history : AccessHistory}

/-- The accesses remembered of a frame, the oldest first. -/
def times (replacer : LruK) (frame : FrameId) : List Nat := ((replacer.histories[frame]?).map (·.accesses)).getD []

theorem times_of_tracked (tracked : replacer.histories[frame]? = some history) :
    replacer.times frame = history.accesses := by
  rw [times, tracked]
  rfl

theorem times_accessed (replacer : LruK) (frame other : FrameId) :
    (replacer.accessed frame).times other =
      if frame = other then recorded replacer.k replacer.clock (replacer.times frame) else replacer.times other := by
  rw [times, histories_accessed]
  split
  · cases tracked : replacer.histories[frame]? <;> simp [times, tracked, AccessHistory.record, recorded]
  · rfl

theorem times_permitted (tracked : replacer.histories[frame]? = some history) (evictable : Bool) (other : FrameId) :
    (replacer.permitted frame history evictable).times other = replacer.times other := by
  rw [times, histories_permitted]
  split
  · rename_i same
    rw [← same, times_of_tracked tracked]
    rfl
  · rfl

theorem times_forgotten (replacer : LruK) (frame other : FrameId) :
    (replacer.forgotten frame).times other = if frame = other then [] else replacer.times other := by
  rw [times, histories_forgotten]
  split <;> rfl

end LruK

namespace Pool

variable {σ α : Type} {pool later last : Pool σ} {spare : List FrameId} {page other : PageId} {id : FrameId}
  {frame : Frame} {history : AccessHistory} {accessed : Option PageId}

/-- The accesses remembered of a page, the oldest first; none of a page that is not in the pool. -/
def timesOf (pool : Pool σ) (page : PageId) : List Nat := (pool.residents[page]?).elim [] pool.replacer.times

theorem timesOf_resident (resident : pool.residents[page]? = some id) :
    pool.timesOf page = pool.replacer.times id := by
  rw [timesOf, resident]
  rfl

theorem timesOf_absent (absent : pool.residents[page]? = none) : pool.timesOf page = [] := by
  rw [timesOf, absent]
  rfl

/-! ### What a call changes in what is remembered -/

/-- A pool has noted at most one access, and of other pages it knows what it knew if they are still there. -/
structure Noted (pool : Pool σ) (accessed : Option PageId) (later : Pool σ) : Prop where
  k : later.replacer.k = pool.replacer.k
  clock : later.replacer.clock = pool.replacer.clock + accessed.toList.length
  stays : ∀ page, later.contains page = true → accessed ≠ some page →
    pool.contains page = true ∧ later.timesOf page = pool.timesOf page
  access : ∀ page, accessed = some page → later.contains page = true ∧
    later.timesOf page = recorded pool.replacer.k pool.replacer.clock (pool.timesOf page)

theorem Noted.of_times (residents : later.residents = pool.residents)
    (times : ∀ id, later.replacer.times id = pool.replacer.times id) (k : later.replacer.k = pool.replacer.k)
    (clock : later.replacer.clock = pool.replacer.clock) : Noted pool none later where
  k := k
  clock := clock
  stays page there _ := by
    rw [contains, residents] at there
    refine ⟨there, ?_⟩
    rw [timesOf, residents, timesOf]
    exact congrArg (Option.elim _ []) (funext times)
  access _ := nofun

theorem Noted.of_same (residents : later.residents = pool.residents) (replacer : later.replacer = pool.replacer) :
    Noted pool none later :=
  .of_times residents (fun id => by rw [replacer]) (by rw [replacer]) (by rw [replacer])

theorem Noted.of_later (noted : Noted pool accessed later) (residents : last.residents = later.residents)
    (replacer : last.replacer = later.replacer) : Noted pool accessed last where
  k := by rw [replacer]; exact noted.k
  clock := by rw [replacer]; exact noted.clock
  stays page there differ := by
    rw [contains, residents] at there
    rw [timesOf, residents, replacer]
    exact noted.stays page there differ
  access page here := by
    rw [contains, timesOf, residents, replacer]
    exact noted.access page here

theorem Noted.trans (first : Noted pool none later) (second : Noted later accessed last)
    (came : ∀ page, accessed = some page → later.timesOf page = pool.timesOf page) : Noted pool accessed last where
  k := second.k.trans first.k
  clock := by rw [second.clock, first.clock]; rfl
  stays page there differ := by
    obtain ⟨before, times⟩ := second.stays page there differ
    obtain ⟨start, same⟩ := first.stays page before nofun
    exact ⟨start, times.trans same⟩
  access page here := by
    obtain ⟨there, times⟩ := second.access page here
    refine ⟨there, ?_⟩
    rw [times, first.k, first.clock, came page here]
    rfl

theorem Noted.before (second : Noted later accessed last) (residents : later.residents = pool.residents)
    (replacer : later.replacer = pool.replacer) : Noted pool accessed last := by
  refine (Noted.of_same residents replacer).trans second fun page _ => ?_
  rw [timesOf, residents, replacer, timesOf]

theorem Bookkept.noted_vacate (kept : Bookkept spare pool) (seat : pool.Seat page id frame history) :
    Noted pool none (pool.vacate page id) where
  k := rfl
  clock := rfl
  stays other there _ := by
    obtain ⟨found, resident⟩ := contains_iff.mp there
    rw [residents_vacate] at resident
    split at resident
    · cases resident
    · rename_i differ
      obtain ⟨_, _, seated⟩ := kept.seat resident
      have away : id ≠ found := fun same => differ ((same ▸ seated).page_unique seat)
      refine ⟨contains_iff.mpr ⟨found, resident⟩, ?_⟩
      rw [timesOf_resident resident, timesOf, residents_vacate, if_neg differ, resident]
      exact (pool.replacer.times_forgotten id found).trans (if_neg away)
  access _ := nofun

theorem Bookkept.noted_install (kept : Bookkept (id :: spare) pool) (absent : pool.residents[page]? = none)
    (frame : Frame) : Noted pool (some page) (pool.install page id frame) where
  k := rfl
  clock := rfl
  stays other there differ := by
    have elsewhere : page ≠ other := fun same => differ (congrArg some same)
    obtain ⟨found, resident⟩ := contains_iff.mp there
    rw [residents_install, if_neg elsewhere] at resident
    obtain ⟨bare, idle⟩ := kept.idle List.mem_cons_self
    obtain ⟨_, _, seated⟩ := kept.seat resident
    have away : id ≠ found := fun same => seated.not_idle (same ▸ idle)
    refine ⟨contains_iff.mpr ⟨found, resident⟩, ?_⟩
    rw [timesOf_resident resident, timesOf, residents_install, if_neg elsewhere, resident]
    exact (pool.replacer.times_accessed id found).trans (if_neg away)
  access other same := by
    cases same
    have resident : (pool.install page id frame).residents[page]? = some id :=
      (residents_install ..).trans (if_pos rfl)
    refine ⟨contains_iff.mpr ⟨id, resident⟩, ?_⟩
    obtain ⟨bare, idle⟩ := kept.idle List.mem_cons_self
    have unknown : pool.replacer.times id = [] := by
      rw [LruK.times, idle.untracked]
      rfl
    rw [timesOf_resident resident, timesOf_absent absent, ← unknown]
    exact (pool.replacer.times_accessed id id).trans (if_pos rfl)

theorem Seat.times_pinned (seat : pool.Seat page id frame history) (other : FrameId) :
    (pool.pinned id frame history).replacer.times other = pool.replacer.times other := by
  unfold Pool.pinned
  dsimp only
  split
  · exact LruK.times_permitted seat.tracked false other
  · rfl

theorem Seat.times_released (seat : pool.Seat page id frame history) (dirty : Bool) (other : FrameId) :
    (pool.released id frame history dirty).replacer.times other = pool.replacer.times other := by
  unfold Pool.released
  dsimp only
  split
  · exact LruK.times_permitted seat.tracked true other
  · rfl

theorem Seat.times_paused (seat : pool.Seat page id frame history) (other : FrameId) :
    (paused pool.replacer id frame history).times other = pool.replacer.times other := by
  unfold paused
  split
  · have tracked : (pool.replacer.permitted id history false).histories[id]? =
        some { history with evictable := false } :=
      (LruK.histories_permitted ..).trans (if_pos rfl)
    exact (LruK.times_permitted tracked true other).trans (LruK.times_permitted seat.tracked false other)
  · rfl

theorem Bookkept.noted_hit (kept : Bookkept spare pool) (seat : pool.Seat page id frame history) :
    Noted pool (some page) (pool.hit id frame history) := by
  have clock : (pool.pinned id frame history).replacer.clock = pool.replacer.clock := by
    unfold Pool.pinned
    dsimp only
    split <;> rfl
  have k : (pool.pinned id frame history).replacer.k = pool.replacer.k := by
    unfold Pool.pinned
    dsimp only
    split <;> rfl
  have resident : (pool.hit id frame history).residents[page]? = some id := seat.resident
  refine ⟨k, congrArg (· + 1) clock, fun other there differ => ?_, fun other same => ?_⟩
  · have before : pool.contains other = true := there
    obtain ⟨found, resident⟩ := contains_iff.mp before
    obtain ⟨_, _, seated⟩ := kept.seat resident
    have away : id ≠ found := fun same => differ (congrArg some ((same ▸ seated).page_unique seat))
    have after : (pool.hit id frame history).residents[other]? = some found := resident
    refine ⟨before, ?_⟩
    rw [timesOf_resident after, timesOf_resident resident, ← seat.times_pinned found]
    exact (LruK.times_accessed _ id found).trans (if_neg away)
  · cases same
    refine ⟨contains_iff.mpr ⟨id, resident⟩, ?_⟩
    rw [timesOf_resident resident, timesOf_resident seat.resident, ← k, ← clock, ← seat.times_pinned id]
    exact (LruK.times_accessed _ id id).trans (if_pos rfl)

/-! ### Every call in turn -/

variable [BackingStore σ]

theorem Claimed.noted {result : Result σ FrameId} (claimed : Claimed pool result) (kept : Bookkept [] pool) :
    Noted pool none (left result) := by
  cases claimed with
  | free => exact .of_same rfl rfl
  | crowded => exact .of_same rfl rfl
  | clean full chosen seat unpinned clean => exact (kept.noted_vacate seat).of_later rfl rfl
  | @saved page id frame history data disk full chosen seat unpinned dirty served =>
    have vacated := (kept.saved seat.frame_at disk).noted_vacate (seat.saved disk)
    exact .of_later (.before vacated rfl rfl) rfl rfl
  | unsaved => exact .of_same rfl rfl

theorem Claimed.noted_install (claimed : Claimed pool (.ok id later)) (kept : Bookkept [] pool)
    (absent : pool.residents[page]? = none) (frame : Frame) :
    Noted pool (some page) (later.install page id frame) := by
  have gone := claimed.absent absent
  refine (claimed.noted kept).trans ((claimed.kept_ok kept).noted_install gone frame) fun other same => ?_
  cases same
  exact (timesOf_absent gone).trans (timesOf_absent absent).symm

/-- A call that ran to an answer has noted the access that it answers with, and none if it failed. -/
inductive Notes (pool : Pool σ) (accessed : α → Option PageId) : Result σ α → Prop where
  | ok {value : α} {later : Pool σ} (noted : Noted pool (accessed value) later) :
      Notes pool accessed (.ok value later)
  | error {error : Error} {later : Pool σ} (noted : Noted pool none later) :
      Notes pool accessed (.error (.error error) later)
  | violation {violation : Violation} {later : Pool σ} : Notes pool accessed (.error (.violation violation) later)

omit [BackingStore σ] in
theorem Notes.discard {β : Type} {action : Action σ α} {value : α → β} {heard : α → Option PageId}
    {accessed : β → Option PageId} (notes : Notes pool heard (action pool))
    (same : ∀ answer, accessed (value answer) = heard answer) :
    Notes pool accessed ((action >>= fun answer => pure (value answer)) pool) := by
  generalize run : action pool = result at notes
  cases notes with
  | ok noted =>
    rw [bind_ok run]
    exact .ok (by rw [same]; exact noted)
  | error noted =>
    rw [bind_error run]
    exact .error noted
  | violation =>
    rw [bind_error run]
    exact .violation

omit [BackingStore σ] in
theorem Notes.of_noted {accessed : α → Option PageId} {failure : Failure} (noted : Noted pool none later) :
    Notes pool accessed (.error failure later) := by
  cases failure with
  | error error => exact .error noted
  | violation violation => exact .violation

theorem Made.notes {result : Result σ (PageId × FrameId)} (made : Made pool result) (kept : Bookkept [] pool) :
    Notes pool (fun answer => some answer.1) result := by
  cases made with
  | refused claimed => exact .of_noted (claimed.noted kept)
  | exhausted => exact .violation
  | @made id frame later claimed idle room =>
    exact .ok ((claimed.noted_install kept kept.next_absent frame).of_later rfl rfl)

theorem Fetched.notes {result : Result σ FrameId} (fetched : Fetched pool page result) (kept : Bookkept [] pool) :
    Notes pool (fun _ => some page) result := by
  cases fetched with
  | unknown => exact .error (.of_same rfl rfl)
  | hit known seat room => exact .ok (kept.noted_hit seat)
  | full => exact .violation
  | refused absent claimed => exact .of_noted ((claimed.noted kept.missed).before rfl rfl)
  | unread absent claimed failed => exact .error (.of_later (.before (claimed.noted kept.missed) rfl rfl) rfl rfl)
  | @loaded id frame later bytes disk known absent claimed idle served =>
    have installed := claimed.noted_install kept.missed absent { frame with page := bytes }
    exact .ok (.of_later (.before installed rfl rfl) rfl rfl)

omit [BackingStore σ] in
theorem Unpinned.notes {dirty : Bool} {result : Result σ Bool} (unpinned : Unpinned pool page dirty result) :
    Notes pool (fun _ => none) result := by
  cases unpinned with
  | absent => exact .ok (.of_same rfl rfl)
  | unpinned => exact .ok (.of_same rfl rfl)
  | @released id frame history seat pinned =>
    refine .ok (.of_times rfl (seat.times_released dirty) ?_ ?_)
    all_goals
      unfold Pool.released
      dsimp only
      split <;> rfl

omit [BackingStore σ] in
theorem Seat.noted_paused (seat : pool.Seat page id frame history) (residents : later.residents = pool.residents)
    (replacer : later.replacer = paused pool.replacer id frame history) : Noted pool none later := by
  refine .of_times residents (fun other => by rw [replacer, seat.times_paused]) ?_ ?_
  all_goals
    rw [replacer, paused]
    split <;> rfl

theorem Flushed.notes {result : Result σ Unit} (flushed : Flushed pool page result) :
    Notes pool (fun _ => none) result := by
  cases flushed with
  | absent => exact .error (.of_same rfl rfl)
  | full => exact .violation
  | written seat room served => exact .ok (seat.noted_paused rfl rfl)
  | refused seat room failed => exact .error (seat.noted_paused rfl rfl)

omit [BackingStore σ] in
theorem Deleted.notes {result : Result σ Bool} (deleted : Deleted pool page result) (kept : Bookkept [] pool) :
    Notes pool (fun _ => none) result := by
  cases deleted with
  | absent => exact .ok (.of_same rfl rfl)
  | pinned => exact .ok (.of_same rfl rfl)
  | dropped seat unpinned => exact .ok ((kept.noted_vacate seat).of_later rfl rfl)

omit [BackingStore σ] in
theorem Notes.after {result : Result σ α} (first : Noted pool none later)
    (second : Notes later (fun _ => none) result) : Notes pool (fun _ => none) result := by
  cases second with
  | ok noted => exact .ok (first.trans noted fun _ => nofun)
  | error noted => exact .error (first.trans noted fun _ => nofun)
  | violation => exact .violation

theorem Bookkept.flushEach_notes (kept : Bookkept [] pool) (pages : List PageId) :
    Notes pool (fun _ => none) (pages.forM Pool.flush pool) := by
  induction pages generalizing pool with
  | nil => exact .ok (.of_same rfl rfl)
  | cons page rest ih =>
    have flushed := kept.flush page
    change Notes pool _ ((Pool.flush page >>= fun _ => rest.forM Pool.flush) pool)
    generalize run : Pool.flush page pool = result at flushed
    have notes := flushed.notes
    have orderly := flushed.orderly kept
    cases notes with
    | ok noted =>
      rw [bind_ok run]
      cases orderly with
      | ok kept_later stays => exact (ih kept_later).after noted
    | error noted =>
      rw [bind_error run]
      exact .error noted
    | violation =>
      rw [bind_error run]
      exact .violation

/-! ### Calls and the pages they access -/

/-- A call, with the page that it accesses if it does not fail. -/
def Call.accessing : Call → Action σ (Option PageId)
  | new => do
    let made ← Pool.new
    return some made.1
  | fetch page => do
    let _ ← Pool.fetch page
    return some page
  | newGuard => do
    let guard ← Guard.new
    return guard.lease.map (·.page)
  | fetchGuard page access => do
    let guard ← Guard.fetch page access
    return guard.lease.map (·.page)
  | call => do
    call.run
    return none

theorem Call.run_eq (call : Call) : (call.run : Action σ Unit) = do let _ ← call.accessing; return := by
  cases call <;> simp [Call.run, Call.accessing]

theorem Bookkept.accessing_orderly (kept : Bookkept [] pool) (call : Call) :
    Orderly pool (call.accessing pool) := by
  have newGuard : Orderly pool ((Guard.new : Action σ Guard) pool) := (kept.new.orderly kept).discard
  have fetchGuard : ∀ page access, Orderly pool (Guard.fetch page access pool) := fun page access =>
    ((kept.fetch page).orderly kept).discard
  cases call with
  | new => exact (kept.new.orderly kept).discard
  | fetch page => exact ((kept.fetch page).orderly kept).discard
  | newGuard => exact newGuard.discard
  | fetchGuard page access => exact (fetchGuard page access).discard
  | unpin page dirty => exact (kept.call (.unpin page dirty)).discard
  | flush page => exact (kept.call (.flush page)).discard
  | flushAll => exact (kept.call .flushAll).discard
  | delete page => exact (kept.call (.delete page)).discard
  | release guard => exact (kept.call (.release guard)).discard
  | forgetStats => exact (kept.call .forgetStats).discard

theorem Bookkept.call_notes (kept : Bookkept [] pool) (call : Call) :
    Notes pool (fun page => page) (call.accessing pool) := by
  cases call with
  | new => exact (kept.new.notes kept).discard fun _ => rfl
  | fetch page => exact ((kept.fetch page).notes kept).discard fun _ => rfl
  | newGuard =>
    have made : Notes pool (fun guard => guard.lease.map (·.page)) ((Guard.new : Action σ Guard) pool) :=
      (kept.new.notes kept).discard fun _ => rfl
    exact made.discard fun _ => rfl
  | fetchGuard page access =>
    have fetched : Notes pool (fun guard => guard.lease.map (·.page)) (Guard.fetch page access pool) :=
      ((kept.fetch page).notes kept).discard fun _ => rfl
    exact fetched.discard fun _ => rfl
  | unpin page dirty =>
    have silent : Notes pool (fun _ => none) (Call.run (.unpin page dirty) pool) :=
      (kept.unpin page dirty).notes.discard fun _ => rfl
    exact silent.discard fun _ => rfl
  | flush page => exact (kept.flush page).notes.discard fun _ => rfl
  | flushAll => exact (kept.flushEach_notes _).discard fun _ => rfl
  | delete page =>
    have silent : Notes pool (fun _ => none) (Call.run (.delete page) pool) :=
      ((kept.delete page).notes kept).discard fun _ => rfl
    exact silent.discard fun _ => rfl
  | release guard =>
    have released : Notes pool (fun _ => none) (guard.release pool) := by
      unfold Guard.release
      cases guard.lease with
      | none => exact .ok (.of_same rfl rfl)
      | some lease => exact (kept.unpin lease.page lease.dirty).notes.discard fun _ => rfl
    have silent : Notes pool (fun _ => none) (Call.run (.release guard) pool) := released.discard fun _ => rfl
    exact silent.discard fun _ => rfl
  | forgetStats => exact .ok (.of_same rfl rfl)

end Pool

end PagedIndex
