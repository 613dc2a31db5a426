import Mathlib
import PagedIndex.Proofs.Pool.Coherence

/-!
# Getting a frame

A page that comes into the pool needs a frame, and there is none just when every frame holds a page that somebody
pins. A call that fails leaves the pool as it was, but for a miss that it counted before and for what the store made
of its requests. Only a read that fails comes too late for that: the page of the victim is gone by then, and its frame
becomes a free one.
-/

namespace PagedIndex.Pool

variable {σ : Type} {pool later : Pool σ} {page : PageId} {id : FrameId} {frame : Frame} {history : AccessHistory}
  {error : Error}

/-! ### Crowded pools -/

/-- Every frame holds a page that somebody pins. -/
def Crowded (pool : Pool σ) : Prop :=
  ∀ i < pool.frames.size, ∃ frame page, pool.frames[i]? = some frame ∧ frame.holds = some page ∧ 0 < frame.pins

theorem Crowded.pinned (crowded : pool.Crowded) (seat : pool.Seat page id frame history) : 0 < frame.pins := by
  obtain ⟨found, _, there, _, pinned⟩ := crowded id.index seat.index_lt
  rw [seat.frame_at] at there
  cases there
  exact pinned

theorem Crowded.not_idle (crowded : pool.Crowded) : ¬ pool.Idle id frame := by
  intro idle
  obtain ⟨found, page, there, holds, _⟩ := crowded id.index idle.index_lt
  rw [idle.frame_at] at there
  cases there
  rw [idle.holds] at holds
  cases holds

theorem Bookkept.crowded (kept : Bookkept [] pool) (full : pool.free = []) (fixed : pool.replacer.victim = none) :
    pool.Crowded := by
  intro i small
  rcases kept.covered i small with idle | ⟨page, resident⟩
  · rw [full] at idle
    cases idle
  · obtain ⟨frame, history, seat⟩ := kept.seat resident
    refine ⟨frame, page, seat.frame_at, seat.holds, Nat.pos_of_ne_zero fun unpinned => ?_⟩
    have candidate : pool.replacer.allows ⟨i⟩ = true := by
      rw [seat.allows, unpinned]
      rfl
    have some_left := LruK.candidates_pos kept.counted candidate
    have none_left := LruK.candidates_of_victim_none kept.counted fixed
    omega

variable [BackingStore σ]

theorem Claimed.of_crowded {result : Result σ FrameId} (claimed : Claimed pool result) (kept : Bookkept [] pool)
    (crowded : pool.Crowded) : result = .error (.error .noFreeFrames) pool := by
  cases claimed with
  | @free id rest free =>
    have member : id ∈ [] ++ pool.free := by simp [free]
    obtain ⟨frame, idle⟩ := kept.idle member
    exact absurd idle crowded.not_idle
  | crowded => rfl
  | clean _ _ seat unpinned =>
    have pinned := crowded.pinned seat
    omega
  | saved _ _ seat unpinned =>
    have pinned := crowded.pinned seat
    omega
  | unsaved _ _ seat unpinned =>
    have pinned := crowded.pinned seat
    omega

/-! ### Failures -/

/-- A call got no frame. The pool is as it was; if a page had to be written to make room, the store has seen that. -/
inductive Refused (pool : Pool σ) : Error → Pool σ → Prop where
  | crowded (crowded : pool.Crowded) : Refused pool .noFreeFrames pool
  | unsaved {victim : PageId} {id : FrameId} {frame : Frame} {history : AccessHistory} {error : Error}
      {disk : Worker σ} (full : pool.free = []) (chosen : pool.replacer.victim = some id)
      (seat : pool.Seat victim id frame history) (unpinned : frame.pins = 0) (dirty : frame.dirty = true)
      (failed : pool.disk.perform (.write victim frame.page) = (.error error, disk)) :
      Refused pool error { pool with disk }

/-- A page could not be brought into the pool. -/
inductive Unfetched (pool : Pool σ) (page : PageId) : Error → Pool σ → Prop where
  | unknown (unknown : ¬ (page.isValid = true ∧ page.number < pool.next)) :
      Unfetched pool page (.invalidPageId page) pool
  | refused {error : Error} {later : Pool σ} (absent : pool.contains page = false)
      (refused : Refused pool.missed error later) : Unfetched pool page error later
  /-- It could not be read into a frame that was free. -/
  | unread {id : FrameId} {rest : List FrameId} {error : Error} {disk : Worker σ} (absent : pool.contains page = false)
      (free : pool.free = id :: rest) (zeroed : pool.frames[id.index]? = some Frame.empty)
      (failed : pool.disk.perform (.read page) = (.error error, disk)) :
      Unfetched pool page error { pool with
        free := rest ++ [id]
        disk
        stats := { pool.stats with misses := pool.stats.misses + 1 } }
  /-- It could not be read into the frame of the victim, which was clean. -/
  | displaced {victim : PageId} {id : FrameId} {frame : Frame} {history : AccessHistory} {error : Error}
      {disk : Worker σ} (absent : pool.contains page = false) (full : pool.free = [])
      (chosen : pool.replacer.victim = some id) (seat : pool.Seat victim id frame history) (unpinned : frame.pins = 0)
      (clean : frame.dirty = false) (failed : pool.disk.perform (.read page) = (.error error, disk)) :
      Unfetched pool page error { pool with
        frames := pool.frames.setIfInBounds id.index Frame.empty
        residents := pool.residents.erase victim
        free := [id]
        replacer := pool.replacer.forgotten id
        disk
        stats := { pool.stats with
          misses := pool.stats.misses + 1
          evictions := pool.stats.evictions + 1 } }
  /-- The victim was written to the store before. -/
  | exchanged {victim : PageId} {id : FrameId} {frame : Frame} {history : AccessHistory} {data : Page} {error : Error}
      {middle disk : Worker σ} (absent : pool.contains page = false) (full : pool.free = [])
      (chosen : pool.replacer.victim = some id) (seat : pool.Seat victim id frame history) (unpinned : frame.pins = 0)
      (dirty : frame.dirty = true) (saved : pool.disk.perform (.write victim frame.page) = (.ok data, middle))
      (failed : middle.perform (.read page) = (.error error, disk)) :
      Unfetched pool page error { pool with
        frames := pool.frames.setIfInBounds id.index Frame.empty
        residents := pool.residents.erase victim
        free := [id]
        replacer := pool.replacer.forgotten id
        disk
        stats := { pool.stats with
          misses := pool.stats.misses + 1
          evictions := pool.stats.evictions + 1
          writes := pool.stats.writes + 1 } }

theorem Claimed.refused {failure : Failure} (claimed : Claimed pool (.error failure later)) (kept : Bookkept [] pool) :
    ∃ error, failure = .error error ∧ Refused pool error later := by
  cases claimed with
  | crowded full fixed => exact ⟨_, rfl, .crowded (kept.crowded full fixed)⟩
  | unsaved full chosen seat unpinned dirty failed =>
    exact ⟨_, rfl, .unsaved full chosen seat unpinned dirty failed⟩

theorem Refused.of_noFreeFrames (refused : Refused pool .noFreeFrames later) :
    pool.Crowded ∨ Error.OfStore σ .noFreeFrames := by
  cases refused with
  | crowded crowded => exact .inl crowded
  | unsaved _ _ _ _ _ failed => exact .inr (ofStore_of_failed failed nofun)

/-- A worker that fails requests without any trace leaves none in the pool. -/
theorem Refused.unchanged (refused : Refused pool error later)
    (traceless : ∀ wanted error disk, pool.disk.perform wanted = (.error error, disk) → disk = pool.disk) :
    later = pool := by
  cases refused with
  | crowded => rfl
  | unsaved _ _ _ _ _ failed => rw [traceless _ _ _ failed]

theorem Made.refused_error (made : Made pool (.error (.error error) later)) (kept : Bookkept [] pool) :
    Refused pool error later := by
  cases made with
  | refused claimed =>
    obtain ⟨_, same, refused⟩ := claimed.refused kept
    cases same
    exact refused

theorem Made.of_crowded {result : Result σ (PageId × FrameId)} (made : Made pool result) (kept : Bookkept [] pool)
    (crowded : pool.Crowded) : result = .error (.error .noFreeFrames) pool := by
  cases made with
  | refused claimed =>
    cases claimed.of_crowded kept crowded
    rfl
  | exhausted claimed => cases claimed.of_crowded kept crowded
  | made claimed => cases claimed.of_crowded kept crowded

omit [BackingStore σ] in
theorem Seat.of_missed (seat : pool.missed.Seat page id frame history) : pool.Seat page id frame history :=
  ⟨seat.resident, seat.frame_at, seat.holds, seat.tracked, seat.evictable⟩

theorem Claimed.unfetched {disk : Worker σ} (claimed : Claimed pool.missed (.ok id later)) (blank : pool.Blank)
    (kept : Bookkept [] pool) (absent : pool.contains page = false)
    (failed : later.disk.perform (.read page) = (.error error, disk)) :
    Unfetched pool page error { later with disk, free := later.free ++ [id] } := by
  cases claimed with
  | @free id rest free =>
    have free : pool.free = id :: rest := free
    -- Nobody held this frame, so it is as empty as it is when it is freed.
    have member : id ∈ [] ++ pool.free := by simp [free]
    obtain ⟨frame, idle⟩ := kept.idle member
    have zeroed := blank frame (Array.mem_of_getElem? idle.frame_at) idle.holds
    exact .unread absent free (zeroed ▸ idle.frame_at) failed
  | clean full chosen seat unpinned clean =>
    have full : pool.free = [] := full
    have done := Unfetched.displaced absent full chosen seat.of_missed unpinned clean failed
    simpa [evicted, vacate, missed, full] using done
  | saved full chosen seat unpinned dirty served =>
    have full : pool.free = [] := full
    have done := Unfetched.exchanged absent full chosen seat.of_missed unpinned dirty served failed
    simpa [evicted, vacate, Pool.saved, place, missed, full] using done

theorem Fetched.unfetched (fetched : Fetched pool page (.error (.error error) later)) (blank : pool.Blank)
    (kept : Bookkept [] pool) : Unfetched pool page error later := by
  cases fetched with
  | unknown unknown => exact .unknown unknown
  | refused absent claimed =>
    obtain ⟨_, same, refused⟩ := claimed.refused kept.missed
    cases same
    exact .refused (absent_iff.mpr absent) refused
  | unread absent claimed failed => exact claimed.unfetched blank kept (absent_iff.mpr absent) failed

theorem Fetched.of_crowded {result : Result σ FrameId} (fetched : Fetched pool page result) (kept : Bookkept [] pool)
    (crowded : pool.Crowded) (known : page.isValid = true ∧ page.number < pool.next)
    (absent : pool.contains page = false) : result = .error (.error .noFreeFrames) pool.missed := by
  have nowhere := absent_iff.mp absent
  have crowded_missed : pool.missed.Crowded := crowded
  cases fetched with
  | unknown unknown => exact absurd known unknown
  | hit known seat => cases nowhere.symm.trans seat.resident
  | full seat => cases nowhere.symm.trans seat.resident
  | refused absent claimed =>
    cases claimed.of_crowded kept.missed crowded_missed
    rfl
  | unread absent claimed => cases claimed.of_crowded kept.missed crowded_missed
  | loaded known absent claimed => cases claimed.of_crowded kept.missed crowded_missed

/-- A page in the pool is pinned where it is, and the store is not asked. Its pins are counted in a word, though. -/
theorem Fetched.of_resident {result : Result σ FrameId} (fetched : Fetched pool page result) (kept : Bookkept [] pool)
    (present : pool.contains page = true) :
    (∃ id later, result = .ok id later ∧ later.disk = pool.disk ∧
      later.stats = { pool.stats with hits := pool.stats.hits + 1 }) ∨
    (wordBound ≤ pool.pinsOf page + 1 ∧ result = .error (.violation .overflow) pool) := by
  obtain ⟨id, resident⟩ := contains_iff.mp present
  cases fetched with
  | unknown unknown =>
    have valid : page.isValid = true := kept.isValid resident
    exact absurd ⟨valid, kept.numbered resident⟩ unknown
  | hit known seat => exact .inl ⟨_, _, rfl, rfl, rfl⟩
  | full seat full =>
    rw [seat.pinsOf]
    exact .inr ⟨not_lt.mp full, rfl⟩
  | refused absent => cases absent.symm.trans resident
  | unread absent => cases absent.symm.trans resident
  | loaded known absent => cases absent.symm.trans resident

theorem Unfetched.of_noFreeFrames (unfetched : Unfetched pool page .noFreeFrames later) :
    pool.Crowded ∧ pool.contains page = false ∨ Error.OfStore σ .noFreeFrames := by
  cases unfetched with
  | refused absent refused => exact refused.of_noFreeFrames.imp (fun crowded => ⟨crowded, absent⟩) id
  | unread _ _ _ failed => exact .inr (ofStore_of_failed failed nofun)
  | displaced _ _ _ _ _ _ failed => exact .inr (ofStore_of_failed failed nofun)
  | exchanged _ _ _ _ _ _ _ failed => exact .inr (ofStore_of_failed failed nofun)

/-! ### Frames that only their holders touch -/

theorem Claimed.blank_left {result : Result σ FrameId} (claimed : Claimed pool result) (blank : pool.Blank) :
    (left result).Blank := by
  cases result with
  | ok id later => exact claimed.blank blank
  | error failure later => cases claimed <;> exact blank

theorem Made.blank {result : Result σ (PageId × FrameId)} (made : Made pool result) (blank : pool.Blank) :
    (left result).Blank := by
  cases made with
  | refused claimed => exact claimed.blank_left blank
  | exhausted claimed => exact claimed.blank blank
  | made claimed => exact blank_set (claimed.blank blank) nofun

theorem Fetched.blank {result : Result σ FrameId} (fetched : Fetched pool page result) (blank : pool.Blank) :
    (left result).Blank := by
  have missed : pool.missed.Blank := blank
  cases fetched with
  | unknown => exact blank
  | hit known seat room => exact blank_set blank fun bare => by cases seat.holds.symm.trans bare
  | full => exact blank
  | refused absent claimed => exact claimed.blank_left missed
  | unread absent claimed failed => exact claimed.blank missed
  | loaded known absent claimed idle served => exact blank_set (claimed.blank missed) nofun

omit [BackingStore σ] in
theorem Unpinned.blank {dirty : Bool} {result : Result σ Bool} (unpinned : Unpinned pool page dirty result)
    (blank : pool.Blank) : (left result).Blank := by
  cases unpinned with
  | absent => exact blank
  | unpinned => exact blank
  | released seat pinned => exact blank_set blank fun bare => by cases seat.holds.symm.trans bare

theorem Flushed.blank {result : Result σ Unit} (flushed : Flushed pool page result) (blank : pool.Blank) :
    (left result).Blank := by
  cases flushed with
  | absent => exact blank
  | full => exact blank
  | written seat => exact blank_set blank fun bare => by cases seat.holds.symm.trans bare
  | refused seat => exact blank_set blank fun bare => by cases seat.holds.symm.trans bare

omit [BackingStore σ] in
theorem Deleted.blank {result : Result σ Bool} (deleted : Deleted pool page result) (blank : pool.Blank) :
    (left result).Blank := by
  cases deleted with
  | absent => exact blank
  | pinned => exact blank
  | dropped => exact blank_set blank fun _ => rfl

theorem Bookkept.call_blank (kept : Bookkept [] pool) (blank : pool.Blank) (call : Call) :
    (left (call.run pool)).Blank := by
  have aftermath := call.aftermath pool
  generalize left (call.run pool) = later at aftermath
  cases aftermath with
  | nothing => exact blank
  | new => exact kept.new.blank blank
  | fetch page => exact (kept.fetch page).blank blank
  | unpin page dirty => exact (kept.unpin page dirty).blank blank
  | flush page => exact (kept.flush page).blank blank
  | flushAll => exact kept.flushEach_left Flushed.blank blank _
  | delete page => exact (kept.delete page).blank blank
  | forgetStats => exact blank

/-- Pools as callers leave them who touch a frame only while it is pinned, over a store that does as it likes. -/
inductive Handled : Pool σ → Prop where
  | created {size k : Nat} {store : σ} {pool : Pool σ} (made : create size k store = .ok pool) : Handled pool
  | called {pool : Pool σ} (before : Handled pool) (call : Call)
      (answered : ∀ violation later, call.run pool ≠ .error (.violation violation) later) :
      Handled (left (call.run pool))
  | rewritten {pool : Pool σ} {id : FrameId} {frame : Frame} (before : Handled pool)
      (frame_at : pool.frames[id.index]? = some frame) (pinned : 0 < frame.pins) (bytes : Page) (dirty : Bool) :
      Handled (pool.place id { frame with page := bytes, dirty })
  | disturbed {pool : Pool σ} (before : Handled pool) (disk : Worker σ) : Handled { pool with disk }

theorem Handled.kept (handled : pool.Handled) : Bookkept [] pool ∧ pool.Blank := by
  induction handled with
  | created made =>
    refine ⟨create_bookkept made, ?_⟩
    obtain ⟨next, replacer, -, -, rfl⟩ := create_eq made
    intro frame member _
    exact (Array.mem_replicate.mp member).2
  | @called pool before call answered ih =>
    obtain ⟨kept, blank⟩ := ih
    refine ⟨?_, kept.call_blank blank call⟩
    have orderly := kept.call call
    generalize call.run pool = result at orderly answered
    cases orderly with
    | ok kept_later => exact kept_later
    | error kept_later => exact kept_later
    | violation => exact absurd rfl (answered _ _)
  | @rewritten pool id frame before frame_at pinned bytes dirty ih =>
    obtain ⟨kept, blank⟩ := ih
    refine ⟨kept.retouch frame_at rfl rfl, blank_set blank fun bare => ?_⟩
    -- Without a page the frame would have no pins.
    have held : frame.holds = none := bare
    rw [blank frame (Array.mem_of_getElem? frame_at) held] at pinned
    cases pinned
  | disturbed before disk ih => exact ⟨ih.1.of_same rfl rfl rfl rfl (UInt32.le_refl _), ih.2⟩

/-! ### The errors of allocation -/

/-- When a pool has no frame for a page, and what it looks like after it said so. -/
structure Allocates (pool : Pool σ) : Prop where
  /-- A store might answer with this error itself. -/
  new_iff : ¬ Error.OfStore σ .noFreeFrames →
    ((∃ later, new pool = .error (.error .noFreeFrames) later) ↔ pool.Crowded)
  new_refused : ∀ {error : Error} {later : Pool σ}, new pool = .error (.error error) later → Refused pool error later
  new_unchanged : (∀ wanted error disk, pool.disk.perform wanted = (.error error, disk) → disk = pool.disk) →
    ∀ {error : Error} {later : Pool σ}, new pool = .error (.error error) later → later = pool
  fetch_iff : ¬ Error.OfStore σ .noFreeFrames → ∀ page : PageId,
    ((∃ later, fetch page pool = .error (.error .noFreeFrames) later) ↔
      pool.Crowded ∧ (page.isValid = true ∧ page.number < pool.next) ∧ pool.contains page = false)
  fetch_resident : ∀ {page : PageId}, pool.contains page = true →
    (∃ id later, fetch page pool = .ok id later ∧ later.disk = pool.disk ∧
      later.stats = { pool.stats with hits := pool.stats.hits + 1 }) ∨
    (wordBound ≤ pool.pinsOf page + 1 ∧ fetch page pool = .error (.violation .overflow) pool)
  fetch_failed : ∀ {page : PageId} {error : Error} {later : Pool σ},
    fetch page pool = .error (.error error) later → Unfetched pool page error later

/-- However a pool was used, it refuses a page for want of frames just when it is crowded, and a call that fails
leaves nothing half done. -/
theorem Handled.allocates (handled : pool.Handled) : pool.Allocates := by
  obtain ⟨kept, blank⟩ := handled.kept
  have refused : ∀ {error later}, new pool = .error (.error error) later → Refused pool error later := by
    intro error later failed
    have made := kept.new
    rw [failed] at made
    exact made.refused_error kept
  have unfetched : ∀ {page error later}, fetch page pool = .error (.error error) later →
      Unfetched pool page error later := by
    intro page error later failed
    have fetched := kept.fetch page
    rw [failed] at fetched
    exact fetched.unfetched blank kept
  refine ⟨fun serving => ⟨?_, fun crowded => ⟨pool, kept.new.of_crowded kept crowded⟩⟩, refused,
    fun traceless _ _ failed => (refused failed).unchanged traceless, fun serving page => ⟨?_, ?_⟩, ?_, unfetched⟩
  · rintro ⟨later, failed⟩
    exact (refused failed).of_noFreeFrames.resolve_right serving
  · rintro ⟨later, failed⟩
    obtain ⟨crowded, absent⟩ := (unfetched failed).of_noFreeFrames.resolve_right serving
    refine ⟨crowded, ?_, absent⟩
    by_contra unknown
    rw [fetch_unknown unknown] at failed
    cases failed
  · rintro ⟨crowded, known, absent⟩
    exact ⟨pool.missed, (kept.fetch page).of_crowded kept crowded known absent⟩
  · intro page present
    exact (kept.fetch page).of_resident kept present

/-- The only frame is pinned, so no other page is made; the pool is exactly as it was. -/
theorem allocates_one_frame :
    ∃ pool : Pool RamStore, Handled pool ∧ pool.Crowded ∧ new pool = .error (.error .noFreeFrames) pool ∧
      pool.Allocates := by
  obtain ⟨empty, made⟩ : ∃ pool : Pool RamStore, create 1 2 RamStore.empty = .ok pool := ⟨_, rfl⟩
  have answered : ∀ violation later, Call.new.run empty ≠ .error (.violation violation) later := by
    intro violation later failed
    cases made
    cases failed
  have handled := (Handled.created made).called .new answered
  have refused : new (left (Call.new.run empty)) = .error (.error .noFreeFrames) (left (Call.new.run empty)) := by
    cases made
    rfl
  have allocates := handled.allocates
  have io : ¬ Error.OfStore RamStore .noFreeFrames := fun answered => by
    obtain ⟨fault, same⟩ := RamStore.io_of_ofStore answered
    cases same
  exact ⟨_, handled, (allocates.new_iff io).mp ⟨_, refused⟩, refused, allocates⟩

end PagedIndex.Pool
