import Mathlib
import PagedIndex.Proofs.Pool.Balance

/-!
# Pins taken and given back

A page that is made or fetched is pinned once more, one that is unpinned once less. No other operation leaves
other pins than it found, and none that fails does.
-/

namespace PagedIndex

namespace Pool

variable {σ : Type} {pool later : Pool σ} {spare : List FrameId} {page : PageId} {id : FrameId} {frame : Frame}
  {history : AccessHistory}

def one (page other : PageId) : Nat := if page = other then 1 else 0

theorem pinsOf_install (kept : Bookkept (id :: spare) pool) (absent : pool.residents[page]? = none)
    (frame : Frame) (other : PageId) : (pool.install page id frame).pinsOf other =
      pool.pinsOf other + if page = other then 1 else 0 := by
  have shown := kept.frameOf?_install page frame other
  rw [Pool.pinsOf, shown]
  by_cases same : page = other
  · rw [if_pos same, if_pos same, ← same, pinsOf_absent absent]
    rfl
  · rw [if_neg same, if_neg same]
    rfl

theorem Bookkept.pinsOf_placed (kept : Bookkept spare pool) (seat : pool.Seat page id frame history)
    {fresh : Frame} (frames : later.frames = (pool.place id fresh).frames)
    (residents : later.residents = pool.residents) (other : PageId) :
    later.pinsOf other = if page = other then fresh.pins else pool.pinsOf other := by
  have same : later.frameOf? other = (pool.place id fresh).frameOf? other := by
    rw [frameOf?_def, frameOf?_def, frames, residents]
    rfl
  rw [Pool.pinsOf, same, kept.frameOf?_place seat]
  split <;> rfl

theorem placed_of_overwriteFrame {change : Page → Outcome Page} (done : overwriteFrame id change pool = .ok () later) :
    ∃ found bytes, pool.frames[id.index]? = some found ∧ later = pool.place id { found with page := bytes } := by
  cases frame_at : pool.frames[id.index]? with
  | none =>
    have missing : Pool.frame id pool = .error (.violation .outOfBounds) pool := by
      rw [Pool.frame, get_bind, frame_at]
      rfl
    rw [overwriteFrame, bind_error missing] at done
    cases done
  | some found =>
    rw [overwriteFrame, bind_ok (frame_ok frame_at)] at done
    cases changed : change found.page with
    | error failure =>
      rw [bind_error (lift_error changed)] at done
      cases done
    | ok bytes =>
      rw [bind_ok (lift_ok changed)] at done
      cases done
      exact ⟨found, bytes, rfl, rfl⟩

theorem pinsOf_retouched {fresh : Frame} (frame_at : pool.frames[id.index]? = some frame)
    (pins : fresh.pins = frame.pins) (other : PageId) :
    (pool.place id fresh).pinsOf other = pool.pinsOf other := by
  rw [Pool.pinsOf, Pool.pinsOf, frameOf?_def, frameOf?_def]
  change Option.getD (((pool.residents[other]?).bind fun there =>
    (pool.frames.setIfInBounds id.index fresh)[there.index]?).map (·.pins)) 0 = _
  cases pool.residents[other]? with
  | none => rfl
  | some there =>
    rw [Option.bind_some, Option.bind_some, frames_set (Array.getElem?_eq_some_iff.mp frame_at).1]
    split
    · rename_i here
      rw [← here, frame_at]
      exact congrArg (Option.getD · 0) (congrArg some pins)
    · rfl

/-- A pin was given back just if there was one. -/
theorem Unpinned.pinsOf {dirty answer : Bool} (unpinned : Unpinned pool page dirty (.ok answer later))
    (kept : Bookkept [] pool) (other : PageId) :
    later.pinsOf other + (if answer then one page other else 0) = pool.pinsOf other ∧
      (answer = true ↔ 0 < pool.pinsOf page) := by
  cases unpinned with
  | absent absent => simp [pinsOf_absent absent]
  | unpinned seat unpinned => simp [seat.pinsOf, unpinned]
  | @released id frame history seat pinned =>
    have frames : (pool.released id frame history dirty).frames =
        (pool.place id { frame with pins := frame.pins - 1, dirty := frame.dirty || dirty }).frames := rfl
    rw [kept.pinsOf_placed seat frames rfl, seat.pinsOf, if_pos rfl, one]
    refine ⟨?_, by simp [pinned]⟩
    split
    · rename_i same
      rw [← same, seat.pinsOf]
      exact Nat.sub_add_cancel pinned
    · rfl

variable [BackingStore σ]

theorem Made.pinsOf_ok (made : Made pool (.ok (page, id) later)) (kept : Bookkept [] pool) (other : PageId) :
    later.pinsOf other = pool.pinsOf other + one page other := by
  cases made with
  | @made _ frame middle claimed idle room =>
    have next : middle.next = pool.next := claimed.next_eq
    have numbered : Bookkept [id] { middle with next := pool.next + 1 } :=
      (claimed.kept_ok kept).of_same rfl rfl rfl rfl (by
        rw [next]
        exact UInt32.le_of_lt (lt_succ_of_room room))
    rw [pinsOf_install numbered (claimed.absent kept.next_absent)]
    exact congrArg (· + one _ other) (claimed.pinsOf kept other)

theorem Made.resident (made : Made pool (.ok (page, id) later)) : later.residents[page]? = some id := by
  cases made with
  | made => exact (residents_install ..).trans (if_pos rfl)

theorem Made.pinsOf_error {failure : Failure} (made : Made pool (.error failure later)) (kept : Bookkept [] pool)
    (other : PageId) : later.pinsOf other = pool.pinsOf other := by
  cases made with
  | refused claimed => exact claimed.pinsOf kept other
  | exhausted claimed => exact claimed.pinsOf kept other

theorem Fetched.pinsOf_ok (fetched : Fetched pool page (.ok id later)) (kept : Bookkept [] pool)
    (other : PageId) : later.pinsOf other = pool.pinsOf other + one page other := by
  cases fetched with
  | @hit _ frame history known seat room =>
    have frames : (pool.hit id frame history).frames =
        (pool.place id { frame with pins := frame.pins + 1 }).frames := rfl
    rw [kept.pinsOf_placed seat frames rfl, one]
    split
    · rename_i same
      rw [← same, seat.pinsOf]
    · rfl
  | @loaded _ frame middle bytes disk known absent claimed idle served =>
    have read : Bookkept [id] (middle.didRead disk) :=
      (claimed.kept_ok kept.missed).of_same rfl rfl rfl rfl (UInt32.le_refl _)
    rw [Pool.loaded, pinsOf_install read (claimed.absent absent)]
    exact congrArg (· + one page other) (claimed.pinsOf kept.missed other)

theorem Fetched.resident (fetched : Fetched pool page (.ok id later)) : later.residents[page]? = some id := by
  cases fetched with
  | hit known seat => exact seat.resident
  | loaded => exact (residents_install ..).trans (if_pos rfl)

theorem Fetched.pinsOf_error {failure : Failure} (fetched : Fetched pool page (.error failure later))
    (kept : Bookkept [] pool) (other : PageId) : later.pinsOf other = pool.pinsOf other := by
  cases fetched with
  | unknown => rfl
  | full => rfl
  | refused absent claimed => exact claimed.pinsOf kept.missed other
  | unread absent claimed => exact claimed.pinsOf kept.missed other

omit [BackingStore σ] in
theorem Deleted.pinsOf {result : Result σ Bool} (deleted : Deleted pool page result) (kept : Bookkept [] pool)
    (other : PageId) : (left result).pinsOf other = pool.pinsOf other := by
  cases deleted with
  | absent => rfl
  | pinned => rfl
  | @dropped id frame history seat unpinned =>
    have shown : (pool.dropped page id).frameOf? other = _ := kept.frameOf?_vacate seat other
    rw [left, Pool.pinsOf, shown]
    split
    · rename_i same
      rw [← same, seat.pinsOf, unpinned]
      rfl
    · rfl

theorem Flushed.pinsOf {result : Result σ Unit} (flushed : Flushed pool page result) (other : PageId) :
    (left result).pinsOf other = pool.pinsOf other := by
  cases flushed with
  | absent => rfl
  | full => rfl
  | @written id frame history data disk seat room served =>
    have same : (pool.flushed id frame history disk).pinsOf other =
        (pool.place id { frame with dirty := false }).pinsOf other := rfl
    exact same.trans (pinsOf_retouched seat.frame_at (by rfl) other)
  | @refused id frame history error disk seat room failed =>
    have same : (pool.unflushed id frame history disk).pinsOf other =
        (pool.place id { frame with dirty := true }).pinsOf other := rfl
    exact same.trans (pinsOf_retouched seat.frame_at (by rfl) other)

theorem Flushed.kept {result : Result σ Unit} (flushed : Flushed pool page result) (kept : Bookkept [] pool) :
    Bookkept [] (left result) := by
  cases flushed with
  | absent => exact kept
  | full => exact kept
  | written seat => exact kept.flushed seat _
  | refused seat => exact kept.unflushed seat _

theorem Bookkept.pinsOf_flushEach (kept : Bookkept [] pool) (pages : List PageId) (other : PageId) :
    (left (pages.forM Pool.flush pool)).pinsOf other = pool.pinsOf other := by
  have step : ∀ {start : Pool σ} {page : PageId}, Flushed start page (Pool.flush page start) →
      Bookkept [] start ∧ start.pinsOf other = pool.pinsOf other →
      Bookkept [] (left (Pool.flush page start)) ∧
        (left (Pool.flush page start)).pinsOf other = pool.pinsOf other :=
    fun flushed before => ⟨flushed.kept before.1, (flushed.pinsOf other).trans before.2⟩
  exact (kept.flushEach_left step ⟨kept, rfl⟩ pages).2

/-! ### Calls that are about no pin -/

omit [BackingStore σ] in
/-- The calls that neither take a pin nor give one back. -/
def Call.Pinless : Call → Prop
  | .flush _ | .flushAll | .delete _ | .forgetStats => True
  | _ => False

theorem Bookkept.pinsOf_pinless (kept : Bookkept [] pool) {call : Call} (pinless : call.Pinless) (other : PageId) :
    (left (call.run pool)).pinsOf other = pool.pinsOf other := by
  cases call with
  | flush page => exact (kept.flush page).pinsOf other
  | flushAll => exact kept.pinsOf_flushEach _ other
  | delete page =>
    have deleted := (kept.delete page).pinsOf kept other
    rwa [Call.run, left_discard]
  | forgetStats => rfl
  | new | fetch | unpin | newGuard | fetchGuard | release => cases pinless

omit [BackingStore σ] in
theorem error_of_discard {α β : Type} {action : Action σ α} {value : α → β} {failure : Failure}
    (failed : (action >>= fun answer => pure (value answer)) pool = .error failure later) :
    action pool = .error failure later := by
  rcases failed_of_bind failed with here | ⟨_, _, _, there⟩
  · exact here
  · cases there

/-- A call that fails leaves no pin behind. -/
theorem Bookkept.pinsOf_failed (kept : Bookkept [] pool) {call : Call} {failure : Failure}
    (failed : call.run pool = .error failure later) (other : PageId) :
    later.pinsOf other = pool.pinsOf other := by
  have new_failed : ∀ {failure : Failure}, Pool.new pool = .error failure later →
      later.pinsOf other = pool.pinsOf other := fun run => by
    have made := kept.new
    rw [run] at made
    exact made.pinsOf_error kept other
  have fetch_failed : ∀ {page : PageId} {failure : Failure}, Pool.fetch page pool = .error failure later →
      later.pinsOf other = pool.pinsOf other := fun {page failure} run => by
    have fetched := kept.fetch page
    rw [run] at fetched
    exact fetched.pinsOf_error kept other
  have unpin_answers : ∀ {page : PageId} {dirty : Bool} {failure : Failure},
      Pool.unpin page dirty pool ≠ .error failure later := fun {page dirty failure} run => by
    have unpinned := kept.unpin page dirty
    rw [run] at unpinned
    cases unpinned
  have pinless : call.Pinless → later.pinsOf other = pool.pinsOf other := fun pinless => by
    have same := kept.pinsOf_pinless pinless other
    rwa [failed] at same
  cases call with
  | new => exact new_failed (error_of_discard failed)
  | fetch page => exact fetch_failed (error_of_discard failed)
  | newGuard => exact new_failed (error_of_discard (error_of_discard failed))
  | fetchGuard page access => exact fetch_failed (error_of_discard (error_of_discard failed))
  | unpin page dirty => exact absurd (error_of_discard failed) unpin_answers
  | release guard =>
    have released := error_of_discard failed
    unfold Guard.release at released
    cases given : guard.lease with
    | none =>
      rw [given] at released
      cases released
    | some lease =>
      rw [given] at released
      exact absurd (error_of_discard released) unpin_answers
  | flush | flushAll | delete | forgetStats => exact pinless trivial

end Pool

/-! ### Guards -/

section

variable {σ : Type} {pool later : Pool σ} {guard : Guard} {lease : Lease}

namespace Guard

theorem held_live (given : guard.lease = some lease) : guard.held = .ok lease := by
  rw [held, given]
  rfl

theorem held_released (gone : guard.lease = none) : guard.held = .error (.violation .guardReleased) := by
  rw [held, gone]
  rfl

theorem page_released (gone : guard.lease = none) : guard.page = .error (.violation .guardReleased) := by
  rw [page, held_released gone]
  rfl

theorem noteChange_live (given : guard.lease = some lease) :
    guard.noteChange = .ok { guard with lease := some { lease with dirty := true } } := by
  rw [noteChange, held_live given]
  rfl

theorem noteChange_released (gone : guard.lease = none) :
    guard.noteChange = .error (.violation .guardReleased) := by
  rw [noteChange, held_released gone]
  rfl

theorem read_live {frame : Frame} (given : guard.lease = some lease)
    (frame_at : pool.frames[lease.frame.index]? = some frame) : guard.read pool = .ok frame.page pool := by
  rw [read, Pool.bind_ok (Pool.lift_ok (held_live given)), Pool.bind_ok (Pool.frame_ok frame_at)]
  rfl

theorem read_released (gone : guard.lease = none) :
    guard.read pool = .error (.violation .guardReleased) pool := by
  rw [read, Pool.bind_error (Pool.lift_error (held_released gone))]

theorem modify_released (gone : guard.lease = none) (change : Page → Outcome Page) :
    guard.modify change pool = .error (.violation .guardReleased) pool := by
  rw [modify, Pool.bind_error (Pool.lift_error (held_released gone))]

theorem release_live {answer : Bool} (given : guard.lease = some lease)
    (unpinned : Pool.unpin lease.page lease.dirty pool = .ok answer later) :
    guard.release pool = .ok { guard with lease := none } later := by
  rw [release, given]
  dsimp only
  rw [Pool.bind_ok unpinned]
  rfl

theorem release_released (gone : guard.lease = none) : guard.release pool = .ok guard pool := by
  obtain ⟨access, given⟩ := guard
  cases gone
  rfl

end Guard

theorem write_of_modify {changed : Guard} {change : Page → Outcome Page}
    (given : guard.lease = some lease) (done : guard.modify change pool = .ok changed later) :
    Pool.overwriteFrame lease.frame change pool = .ok () later ∧
      changed = { guard with lease := some { lease with dirty := true } } := by
  rw [Guard.modify, Pool.bind_ok (Pool.lift_ok (Guard.held_live given)),
    Pool.bind_ok (Pool.lift_ok (Guard.noteChange_live given))] at done
  obtain ⟨_, _, written, last⟩ := Pool.ran_of_bind done
  cases last
  exact ⟨written, rfl⟩

theorem unpin_of_release {released : Guard} (done : guard.release pool = .ok released later) :
    released.lease = none ∧ ((guard.lease = none ∧ later = pool) ∨
      ∃ lease answer, guard.lease = some lease ∧
        Pool.unpin lease.page lease.dirty pool = .ok answer later) := by
  unfold Guard.release at done
  cases given : guard.lease with
  | none =>
    rw [given] at done
    cases done
    exact ⟨rfl, .inl ⟨rfl, rfl⟩⟩
  | some lease =>
    rw [given] at done
    obtain ⟨answer, _, unpinned, last⟩ := Pool.ran_of_bind done
    cases last
    exact ⟨rfl, .inr ⟨lease, answer, rfl, unpinned⟩⟩

variable [BackingStore σ]

theorem new_of_newGuard (done : Guard.new pool = .ok guard later) :
    ∃ page id, Pool.new pool = .ok (page, id) later ∧ guard = ⟨.basic, some { page, frame := id }⟩ := by
  obtain ⟨⟨page, id⟩, _, made, last⟩ := Pool.ran_of_bind done
  cases last
  exact ⟨page, id, made, rfl⟩

theorem fetch_of_fetchGuard {page : PageId} {access : Access}
    (done : Guard.fetch page access pool = .ok guard later) :
    ∃ id, Pool.fetch page pool = .ok id later ∧ guard = ⟨access, some { page, frame := id }⟩ := by
  obtain ⟨id, _, fetched, last⟩ := Pool.ran_of_bind done
  cases last
  exact ⟨id, fetched, rfl⟩

end

end PagedIndex
