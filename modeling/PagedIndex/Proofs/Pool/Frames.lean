import Mathlib
import PagedIndex.Proofs.Pool.Effect

/-!
# The frame of each page

Seen from outside, a pool is a partial map from pages to frames. Each operation changes it at the pages that
it is about, and at most takes away a page that nobody pins.
-/

namespace PagedIndex.Pool

variable {σ : Type} {pool : Pool σ} {spare : List FrameId} {page other : PageId} {id : FrameId}
  {frame fresh : Frame} {history : AccessHistory}

/-- How often a page is pinned; a page that is not in the pool is not pinned. -/
def pinsOf (pool : Pool σ) (page : PageId) : Nat := ((pool.frameOf? page).map (·.pins)).getD 0

theorem contains_iff : pool.contains page = true ↔ ∃ id, pool.residents[page]? = some id := by
  rw [contains, Std.TreeMap.contains_eq_isSome_getElem?, Option.isSome_iff_exists]

theorem absent_iff : pool.contains page = false ↔ pool.residents[page]? = none := by
  rw [contains, Std.TreeMap.contains_eq_isSome_getElem?, Option.isSome_eq_false_iff, Option.isNone_iff_eq_none]

theorem frameOf?_def (pool : Pool σ) (page : PageId) :
    pool.frameOf? page = pool.residents[page]?.bind fun id => pool.frames[id.index]? := rfl

theorem Seat.frameOf? (seat : pool.Seat page id frame history) : pool.frameOf? page = some frame := by
  rw [frameOf?_def, seat.resident]
  exact seat.frame_at

theorem Seat.pinsOf (seat : pool.Seat page id frame history) : pool.pinsOf page = frame.pins := by
  rw [Pool.pinsOf, seat.frameOf?]
  rfl

theorem frameOf?_absent (absent : pool.residents[page]? = none) : pool.frameOf? page = none := by
  rw [frameOf?_def, absent]
  rfl

theorem pinsOf_absent (absent : pool.residents[page]? = none) : pool.pinsOf page = 0 := by
  rw [Pool.pinsOf, frameOf?_absent absent]
  rfl

theorem frameOf?_congr {later : Pool σ} (frames : later.frames = pool.frames)
    (residents : later.residents = pool.residents) (page : PageId) :
    later.frameOf? page = pool.frameOf? page := by
  rw [frameOf?_def, frameOf?_def, frames, residents]

theorem Bookkept.frameOf?_place (kept : Bookkept spare pool) (seat : pool.Seat page id frame history)
    (fresh : Frame) (other : PageId) :
    (pool.place id fresh).frameOf? other = if page = other then some fresh else pool.frameOf? other := by
  rw [frameOf?_def, frameOf?_def]
  change (pool.residents[other]?.bind fun there =>
    (pool.frames.setIfInBounds id.index fresh)[there.index]?) = _
  by_cases same : page = other
  · subst same
    rw [seat.resident, if_pos rfl]
    exact (frames_set seat.index_lt _ _).trans (if_pos rfl)
  · rw [if_neg same]
    cases resident : pool.residents[other]? with
    | none => rfl
    | some there =>
      obtain ⟨_, _, found⟩ := kept.seat resident
      have away : id ≠ there := fun here => same ((here ▸ found).page_unique seat)
      exact (frames_set seat.index_lt _ _).trans (if_neg (index_ne away))

theorem Bookkept.frameOf?_vacate (kept : Bookkept spare pool) (seat : pool.Seat page id frame history)
    (other : PageId) :
    (pool.vacate page id).frameOf? other = if page = other then none else pool.frameOf? other := by
  by_cases same : page = other
  · rw [if_pos same, frameOf?_absent ((residents_vacate ..).trans (if_pos same))]
  · rw [if_neg same, frameOf?_def, frameOf?_def, residents_vacate, if_neg same]
    cases resident : pool.residents[other]? with
    | none => rfl
    | some there =>
      obtain ⟨_, _, found⟩ := kept.seat resident
      have away : id ≠ there := fun here => same ((here ▸ found).page_unique seat)
      exact (frames_set seat.index_lt _ _).trans (if_neg (index_ne away))

theorem Bookkept.frameOf?_install (kept : Bookkept (id :: spare) pool) (page : PageId) (frame : Frame)
    (other : PageId) :
    (pool.install page id frame).frameOf? other =
      if page = other then some { frame with holds := some page, pins := 1 }
      else pool.frameOf? other := by
  obtain ⟨bare, idle⟩ := kept.idle List.mem_cons_self
  rw [frameOf?_def, frameOf?_def, residents_install]
  by_cases same : page = other
  · rw [if_pos same, if_pos same]
    exact (frames_set idle.index_lt _ _).trans (if_pos rfl)
  · rw [if_neg same, if_neg same]
    cases resident : pool.residents[other]? with
    | none => rfl
    | some there =>
      obtain ⟨_, _, found⟩ := kept.seat resident
      have away : id ≠ there := fun here => found.not_idle (here ▸ idle)
      exact (frames_set idle.index_lt _ _).trans (if_neg (index_ne away))

/-! ### Frames after each operation -/

theorem Bookkept.frameOf?_saved (kept : Bookkept spare pool) (seat : pool.Seat page id frame history)
    (disk : Worker σ) (other : PageId) :
    (pool.saved id frame disk).frameOf? other =
      if page = other then some { frame with dirty := false } else pool.frameOf? other :=
  (frameOf?_congr rfl rfl other).trans (kept.frameOf?_place seat _ other)

variable [BackingStore σ]

/-- Claiming a frame takes at most one page away, and nobody pins it. -/
theorem Claimed.frameOf?_ok {later : Pool σ} (claimed : Claimed pool (.ok id later))
    (kept : Bookkept [] pool) (other : PageId) :
    later.frameOf? other = pool.frameOf? other ∨
      later.frameOf? other = none ∧ ∃ frame, pool.frameOf? other = some frame ∧ frame.pins = 0 := by
  cases claimed with
  | free => exact .inl (frameOf?_congr rfl rfl other)
  | @clean page _ frame history full chosen seat unpinned clean =>
    have vacated : (pool.evicted page id).frameOf? other = _ := kept.frameOf?_vacate seat other
    by_cases same : page = other
    · subst same
      exact .inr ⟨vacated.trans (if_pos rfl), frame, seat.frameOf?, unpinned⟩
    · exact .inl (vacated.trans (if_neg same))
  | @saved page _ frame history data disk full chosen seat unpinned dirty served =>
    have vacated : ((pool.saved id frame disk).evicted page id).frameOf? other = _ :=
      (kept.saved seat.frame_at disk).frameOf?_vacate (seat.saved disk) other
    by_cases same : page = other
    · subst same
      exact .inr ⟨vacated.trans (if_pos rfl), frame, seat.frameOf?, unpinned⟩
    · rw [if_neg same] at vacated
      exact .inl (vacated.trans ((kept.frameOf?_saved seat disk other).trans (if_neg same)))

theorem Claimed.frameOf?_error {failure : Failure} {later : Pool σ}
    (claimed : Claimed pool (.error failure later)) (other : PageId) :
    later.frameOf? other = pool.frameOf? other := by
  cases claimed <;> exact frameOf?_congr rfl rfl other

theorem Claimed.pinsOf {result : Result σ FrameId} (claimed : Claimed pool result)
    (kept : Bookkept [] pool) (other : PageId) :
    match result with | .ok _ later | .error _ later => later.pinsOf other = pool.pinsOf other := by
  cases result with
  | ok id later =>
    rcases claimed.frameOf?_ok kept other with same | ⟨gone, frame, before, unpinned⟩
    · simp only [Pool.pinsOf, same]
    · simp [Pool.pinsOf, gone, before, unpinned]
  | error failure later => simp only [Pool.pinsOf, claimed.frameOf?_error other]

end PagedIndex.Pool
