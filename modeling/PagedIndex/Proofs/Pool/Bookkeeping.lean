import Mathlib
import PagedIndex.Pool
import PagedIndex.Proofs.Candidates

/-!
# Bookkeeping of the pool

The free list, the residents, the frames and the replacer say the same thing in four places. Between calls
every frame is free or the seat of one page; inside a call some frames are spare, taken from one side and
not yet given to the other.
-/

namespace PagedIndex.Pool

variable {σ : Type} {pool : Pool σ} {spare : List FrameId} {page other : PageId} {id : FrameId}
  {frame : Frame} {history : AccessHistory}

/-- Frame `id` holds `page`, and the replacer may evict it just when nobody pins it. -/
structure Seat (pool : Pool σ) (page : PageId) (id : FrameId) (frame : Frame) (history : AccessHistory) :
    Prop where
  resident : pool.residents[page]? = some id
  frame_at : pool.frames[id.index]? = some frame
  holds : frame.holds = some page
  tracked : pool.replacer.histories[id]? = some history
  evictable : history.evictable = decide (frame.pins = 0)

/-- Frame `id` holds no page, and the replacer does not know it. -/
structure Idle (pool : Pool σ) (id : FrameId) (frame : Frame) : Prop where
  frame_at : pool.frames[id.index]? = some frame
  holds : frame.holds = none
  pins : frame.pins = 0
  untracked : pool.replacer.histories[id]? = none

/-- The free list, the residents, the frames and the replacer agree, but for the spare frames. -/
structure Bookkept (spare : List FrameId) (pool : Pool σ) : Prop where
  idle_nodup : (spare ++ pool.free).Nodup
  idle : ∀ {id : FrameId}, id ∈ spare ++ pool.free → ∃ frame, pool.Idle id frame
  seat : ∀ {page : PageId} {id : FrameId}, pool.residents[page]? = some id →
    ∃ frame history, pool.Seat page id frame history
  numbered : ∀ {page : PageId} {id : FrameId}, pool.residents[page]? = some id → page.number < pool.next
  covered : ∀ i < pool.frames.size, ⟨i⟩ ∈ spare ++ pool.free ∨
    ∃ page : PageId, pool.residents[page]? = some ⟨i⟩
  frameCount_eq : pool.replacer.frameCount = pool.frames.size
  counted : pool.replacer.Counted

theorem Seat.index_lt (seat : pool.Seat page id frame history) : id.index < pool.frames.size :=
  (Array.getElem?_eq_some_iff.mp seat.frame_at).1

theorem Idle.index_lt (idle : pool.Idle id frame) : id.index < pool.frames.size :=
  (Array.getElem?_eq_some_iff.mp idle.frame_at).1

theorem Seat.allows (seat : pool.Seat page id frame history) :
    pool.replacer.allows id = decide (frame.pins = 0) := by
  rw [LruK.allows_of_tracked seat.tracked, seat.evictable]

theorem Seat.page_unique {later : Frame} {known : AccessHistory} (seat : pool.Seat page id frame history)
    (same : pool.Seat other id later known) : other = page := by
  have frames := seat.frame_at.symm.trans same.frame_at
  have holds := same.holds
  rw [← Option.some.inj frames, seat.holds] at holds
  exact (Option.some.inj holds).symm

theorem Seat.not_idle {bare : Frame} (seat : pool.Seat page id frame history) : ¬ pool.Idle id bare := by
  intro idle
  have tracked := seat.tracked
  rw [idle.untracked] at tracked
  cases tracked

theorem Bookkept.victim_seat (kept : Bookkept spare pool) (chosen : pool.replacer.victim = some id) :
    ∃ page frame history, pool.Seat page id frame history ∧ frame.pins = 0 := by
  have allowed := LruK.victim_allowed chosen
  obtain ⟨history, tracked, _⟩ := LruK.exists_of_allows allowed
  have small := kept.counted.tracked_lt tracked
  rw [kept.frameCount_eq] at small
  rcases kept.covered id.index small with member | ⟨page, resident⟩
  · obtain ⟨bare, idle⟩ := kept.idle member
    rw [idle.untracked] at tracked
    cases tracked
  · obtain ⟨frame, history, seat⟩ := kept.seat resident
    refine ⟨page, frame, history, seat, ?_⟩
    rw [seat.allows] at allowed
    simpa using allowed

/-! ### Changes of one frame -/

def place (pool : Pool σ) (id : FrameId) (frame : Frame) : Pool σ :=
  { pool with frames := pool.frames.setIfInBounds id.index frame }

def vacate (pool : Pool σ) (page : PageId) (id : FrameId) : Pool σ :=
  { pool with
    frames := pool.frames.setIfInBounds id.index Frame.empty
    residents := pool.residents.erase page
    replacer := pool.replacer.forgotten id }

def install (pool : Pool σ) (page : PageId) (id : FrameId) (frame : Frame) : Pool σ :=
  { pool with
    frames := pool.frames.setIfInBounds id.index { frame with holds := some page, pins := 1 }
    residents := pool.residents.insert page id
    replacer := pool.replacer.accessed id }

theorem frames_set (small : id.index < pool.frames.size) (i : Nat) (frame : Frame) :
    (pool.frames.setIfInBounds id.index frame)[i]? =
      if id.index = i then some frame else pool.frames[i]? := by
  rw [Array.getElem?_setIfInBounds, if_pos small]

theorem residents_vacate (pool : Pool σ) (page : PageId) (id : FrameId) (other : PageId) :
    (pool.vacate page id).residents[other]? =
      if page = other then none else pool.residents[other]? := by
  simp [vacate, Std.TreeMap.getElem?_erase]

theorem residents_install (pool : Pool σ) (page : PageId) (id : FrameId) (frame : Frame)
    (other : PageId) :
    (pool.install page id frame).residents[other]? =
      if page = other then some id else pool.residents[other]? := by
  simp [install, Std.TreeMap.getElem?_insert]

theorem index_ne {a b : FrameId} (differ : a ≠ b) : a.index ≠ b.index :=
  fun same => differ (by cases a; cases b; simp_all)

theorem Bookkept.of_same {later : Pool σ} (kept : Bookkept spare pool)
    (frames : later.frames = pool.frames) (residents : later.residents = pool.residents)
    (free : later.free = pool.free) (replacer : later.replacer = pool.replacer)
    (next : pool.next ≤ later.next) : Bookkept spare later where
  idle_nodup := by rw [free]; exact kept.idle_nodup
  idle member := by
    rw [free] at member
    obtain ⟨frame, idle⟩ := kept.idle member
    exact ⟨frame, frames ▸ idle.frame_at, idle.holds, idle.pins, replacer ▸ idle.untracked⟩
  seat resident := by
    rw [residents] at resident
    obtain ⟨frame, history, seat⟩ := kept.seat resident
    exact ⟨frame, history, residents ▸ seat.resident, frames ▸ seat.frame_at, seat.holds,
      replacer ▸ seat.tracked, seat.evictable⟩
  numbered resident := by
    rw [residents] at resident
    exact UInt32.lt_of_lt_of_le (kept.numbered resident) next
  covered := by rw [frames, free, residents]; exact kept.covered
  frameCount_eq := by rw [replacer, frames]; exact kept.frameCount_eq
  counted := by rw [replacer]; exact kept.counted

/-- Which of the idle frames are spare, and in which order they are listed, is of no account. -/
theorem Bookkept.reorder {ready : List FrameId} {free : List FrameId} (kept : Bookkept spare pool)
    (same : (ready ++ free).Perm (spare ++ pool.free)) : Bookkept ready { pool with free } where
  idle_nodup := same.nodup_iff.mpr kept.idle_nodup
  idle member := by
    obtain ⟨frame, idle⟩ := kept.idle (same.mem_iff.mp member)
    exact ⟨frame, idle.frame_at, idle.holds, idle.pins, idle.untracked⟩
  seat resident := by
    obtain ⟨frame, history, seat⟩ := kept.seat resident
    exact ⟨frame, history, seat.resident, seat.frame_at, seat.holds, seat.tracked, seat.evictable⟩
  numbered := kept.numbered
  covered i small := by
    rcases kept.covered i small with member | resident
    · exact .inl (same.mem_iff.mpr member)
    · exact .inr resident
  frameCount_eq := kept.frameCount_eq
  counted := kept.counted

/-- A change of a seat that keeps its page, told to the replacer. -/
theorem Bookkept.reseat {fresh : Frame} {known : AccessHistory} {replacer : LruK}
    (kept : Bookkept spare pool) (seat : pool.Seat page id frame history)
    (holds : fresh.holds = some page)
    (histories : ∀ other : FrameId, replacer.histories[other]? =
      if id = other then some known else pool.replacer.histories[other]?)
    (evictable : known.evictable = decide (fresh.pins = 0))
    (frameCount : replacer.frameCount = pool.replacer.frameCount) (counted : replacer.Counted) :
    Bookkept spare { pool.place id fresh with replacer } where
  idle_nodup := kept.idle_nodup
  idle {other} member := by
    obtain ⟨bare, idle⟩ := kept.idle member
    have differ : id ≠ other := fun same => seat.not_idle (same ▸ idle)
    refine ⟨bare, ?_, idle.holds, idle.pins, ?_⟩
    · exact (frames_set seat.index_lt _ _).trans ((if_neg (index_ne differ)).trans idle.frame_at)
    · exact (histories other).trans ((if_neg differ).trans idle.untracked)
  seat {there other} resident := by
    by_cases same : id = other
    · subst same
      obtain ⟨_, _, found⟩ := kept.seat resident
      obtain rfl := seat.page_unique found
      exact ⟨fresh, known, resident, (frames_set seat.index_lt _ _).trans (if_pos rfl), holds,
        (histories id).trans (if_pos rfl), evictable⟩
    · obtain ⟨old, older, found⟩ := kept.seat resident
      exact ⟨old, older, resident,
        (frames_set seat.index_lt _ _).trans ((if_neg (index_ne same)).trans found.frame_at), found.holds,
        (histories other).trans ((if_neg same).trans found.tracked), found.evictable⟩
  numbered := kept.numbered
  covered i small := kept.covered i (by simpa [place] using small)
  frameCount_eq := by
    rw [frameCount, kept.frameCount_eq]
    exact (Array.size_setIfInBounds ..).symm
  counted := counted

/-- The bytes and the mark of a frame are nothing to the bookkeeping. -/
theorem Bookkept.retouch {fresh : Frame} (kept : Bookkept spare pool)
    (frame_at : pool.frames[id.index]? = some frame) (holds : fresh.holds = frame.holds)
    (pins : fresh.pins = frame.pins) : Bookkept spare (pool.place id fresh) := by
  have small := (Array.getElem?_eq_some_iff.mp frame_at).1
  have kept_at : ∀ {other : FrameId} {old : Frame}, pool.frames[other.index]? = some old →
      ∃ later, (pool.place id fresh).frames[other.index]? = some later ∧ later.holds = old.holds ∧
        later.pins = old.pins := by
    intro other old there
    change ∃ later, (pool.frames.setIfInBounds id.index fresh)[other.index]? = some later ∧ _
    rw [frames_set small]
    split
    · rename_i same
      rw [← same, frame_at] at there
      cases there
      exact ⟨fresh, rfl, holds, pins⟩
    · exact ⟨old, there, rfl, rfl⟩
  exact {
    idle_nodup := kept.idle_nodup
    idle := fun member => by
      obtain ⟨bare, idle⟩ := kept.idle member
      obtain ⟨later, there, sameHolds, samePins⟩ := kept_at idle.frame_at
      exact ⟨later, there, sameHolds.trans idle.holds, samePins.trans idle.pins, idle.untracked⟩
    seat := fun resident => by
      obtain ⟨old, older, seat⟩ := kept.seat resident
      obtain ⟨later, there, sameHolds, samePins⟩ := kept_at seat.frame_at
      exact ⟨later, older, resident, there, sameHolds.trans seat.holds, seat.tracked,
        samePins ▸ seat.evictable⟩
    numbered := kept.numbered
    covered := fun i less => kept.covered i (by simpa [place] using less)
    frameCount_eq := kept.frameCount_eq.trans (Array.size_setIfInBounds ..).symm
    counted := kept.counted }

/-- An unpinned page that leaves the pool leaves a spare frame. -/
theorem Bookkept.vacate (kept : Bookkept spare pool) (seat : pool.Seat page id frame history)
    (unpinned : frame.pins = 0) : Bookkept (id :: spare) (pool.vacate page id) := by
  have here : id ∉ spare ++ pool.free := fun member => by
    obtain ⟨bare, idle⟩ := kept.idle member
    exact seat.not_idle idle
  have residents := pool.residents_vacate page id
  exact {
    idle_nodup := List.nodup_cons.mpr ⟨here, kept.idle_nodup⟩
    idle := fun {other} member => by
      by_cases same : id = other
      · subst same
        exact ⟨Frame.empty, (frames_set seat.index_lt _ _).trans (if_pos rfl), rfl, rfl,
          (LruK.histories_forgotten ..).trans (if_pos rfl)⟩
      · rcases List.mem_cons.mp member with rfl | member
        · exact absurd rfl same
        · obtain ⟨bare, idle⟩ := kept.idle member
          exact ⟨bare, (frames_set seat.index_lt _ _).trans ((if_neg (index_ne same)).trans idle.frame_at),
            idle.holds, idle.pins,
            (LruK.histories_forgotten ..).trans ((if_neg same).trans idle.untracked)⟩
    seat := fun {there other} resident => by
      rw [residents] at resident
      split at resident
      · cases resident
      · rename_i differ
        obtain ⟨old, older, found⟩ := kept.seat resident
        have away : id ≠ other := fun same => differ ((same ▸ found).page_unique seat)
        exact ⟨old, older, (residents there).trans ((if_neg differ).trans resident),
          (frames_set seat.index_lt _ _).trans ((if_neg (index_ne away)).trans found.frame_at), found.holds,
          (LruK.histories_forgotten ..).trans ((if_neg away).trans found.tracked), found.evictable⟩
    numbered := fun resident => by
      rw [residents] at resident
      split at resident
      · cases resident
      · exact kept.numbered resident
    covered := fun i less => by
      by_cases same : id.index = i
      · exact .inl (by subst same; exact List.mem_cons_self)
      · rcases kept.covered i (by simpa [Pool.vacate] using less) with member | ⟨other, resident⟩
        · exact .inl (List.mem_cons_of_mem _ member)
        · refine .inr ⟨other, (residents other).trans ((if_neg ?_).trans resident)⟩
          intro gone
          rw [← gone, seat.resident] at resident
          exact same (congrArg FrameId.index (Option.some.inj resident))
    frameCount_eq := kept.frameCount_eq.trans (Array.size_setIfInBounds ..).symm
    counted := kept.counted.forgotten (by rw [seat.allows, unpinned]; rfl) }

/-- A spare frame that takes a page in is its seat, pinned once. -/
theorem Bookkept.install (kept : Bookkept (id :: spare) pool) (absent : pool.residents[page]? = none)
    (less : page.number < pool.next) (frame : Frame) : Bookkept spare (pool.install page id frame) := by
  obtain ⟨bare, idle⟩ := kept.idle (List.mem_cons_self)
  have nodup := List.nodup_cons.mp kept.idle_nodup
  have residents := pool.residents_install page id frame
  exact {
    idle_nodup := nodup.2
    idle := fun {other} member => by
      have differ : id ≠ other := fun same => nodup.1 (same ▸ member)
      obtain ⟨old, found⟩ := kept.idle (List.mem_cons_of_mem _ member)
      exact ⟨old, (frames_set idle.index_lt _ _).trans ((if_neg (index_ne differ)).trans found.frame_at),
        found.holds, found.pins, (LruK.histories_accessed ..).trans ((if_neg differ).trans found.untracked)⟩
    seat := fun {there other} resident => by
      rw [residents] at resident
      split at resident
      · rename_i same
        cases resident
        subst same
        exact ⟨_, _, (residents page).trans (if_pos rfl),
          (frames_set idle.index_lt _ _).trans (if_pos rfl), rfl,
          (LruK.histories_accessed ..).trans (if_pos rfl),
          by rw [idle.untracked]; simp [AccessHistory.record]⟩
      · rename_i elsewhere
        obtain ⟨old, older, found⟩ := kept.seat resident
        have away : id ≠ other := fun same => found.not_idle (same ▸ idle)
        exact ⟨old, older, (residents there).trans ((if_neg elsewhere).trans resident),
          (frames_set idle.index_lt _ _).trans ((if_neg (index_ne away)).trans found.frame_at), found.holds,
          (LruK.histories_accessed ..).trans ((if_neg away).trans found.tracked), found.evictable⟩
    numbered := fun resident => by
      rw [residents] at resident
      split at resident
      · rename_i same
        exact same ▸ less
      · exact kept.numbered resident
    covered := fun i small => by
      rcases kept.covered i (by simpa [Pool.install] using small) with member | ⟨other, resident⟩
      · rcases List.mem_cons.mp member with same | member
        · exact .inr ⟨page, (residents page).trans ((if_pos rfl).trans (congrArg some same.symm))⟩
        · exact .inl member
      · refine .inr ⟨other, (residents other).trans ((if_neg ?_).trans resident)⟩
        intro taken
        rw [← taken, absent] at resident
        cases resident
    frameCount_eq := kept.frameCount_eq.trans (Array.size_setIfInBounds ..).symm
    counted := kept.counted.accessed (by rw [kept.frameCount_eq]; exact idle.index_lt) }

end PagedIndex.Pool
