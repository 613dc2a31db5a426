import Mathlib
import PagedIndex.Proofs.Pool.Bookkeeping

/-!
# Effects of the pool's operations

For each operation, all that it can do to a pool in good order: how it ends, and the pool it leaves. Whatever
else is known of the operations is read off these lists.
-/

namespace PagedIndex.Pool

variable {σ α β : Type} {pool : Pool σ}

/-! ### Running actions -/

abbrev Result (σ α : Type) := EStateM.Result Failure (Pool σ) α

theorem bind_ok {first : Action σ α} {rest : α → Action σ β} {value : α} {next : Pool σ}
    (done : first pool = .ok value next) : (first >>= rest) pool = rest value next := by
  simp [bind, EStateM.bind, done]

theorem bind_error {first : Action σ α} {rest : α → Action σ β} {failure : Failure} {next : Pool σ}
    (failed : first pool = .error failure next) : (first >>= rest) pool = .error failure next := by
  simp [bind, EStateM.bind, failed]

theorem ran_of_bind {first : Action σ α} {rest : α → Action σ β} {answer : β} {later : Pool σ}
    (done : (first >>= rest) pool = .ok answer later) :
    ∃ value next, first pool = .ok value next ∧ rest value next = .ok answer later := by
  cases run : first pool with
  | ok value next =>
    rw [bind_ok run] at done
    exact ⟨value, next, rfl, done⟩
  | error failure next =>
    rw [bind_error run] at done
    cases done

theorem failed_of_bind {first : Action σ α} {rest : α → Action σ β} {failure : Failure} {later : Pool σ}
    (failed : (first >>= rest) pool = .error failure later) :
    first pool = .error failure later ∨
      ∃ value next, first pool = .ok value next ∧ rest value next = .error failure later := by
  cases run : first pool with
  | ok value next =>
    rw [bind_ok run] at failed
    exact .inr ⟨value, next, rfl, failed⟩
  | error other next =>
    rw [bind_error run] at failed
    cases failed
    exact .inl rfl

theorem get_bind (rest : Pool σ → Action σ β) : (get >>= rest) pool = rest pool pool := rfl

theorem modify_bind (change : Pool σ → Pool σ) (rest : PUnit → Action σ β) :
    (modify change >>= rest) pool = rest ⟨⟩ (change pool) := rfl

theorem pure_apply (value : α) : (pure value : Action σ α) pool = .ok value pool := rfl

theorem throw_apply (failure : Failure) : (throw failure : Action σ α) pool = .error failure pool := rfl

theorem lift_ok {outcome : Outcome α} {value : α} (done : outcome = .ok value) :
    (liftM outcome : Action σ α) pool = .ok value pool := by
  subst done
  rfl

theorem lift_error {outcome : Outcome α} {failure : Failure} (failed : outcome = .error failure) :
    (liftM outcome : Action σ α) pool = .error failure pool := by
  subst failed
  rfl

theorem updateReplacer_ok {change : LruK → Outcome LruK} {replacer : LruK}
    (done : change pool.replacer = .ok replacer) :
    updateReplacer change pool = .ok () { pool with replacer } := by
  rw [updateReplacer, get_bind, bind_ok (lift_ok done)]
  rfl

variable {page : PageId} {id : FrameId} {frame found : Frame} {history : AccessHistory}

theorem frame_ok (frame_at : pool.frames[id.index]? = some found) :
    Pool.frame id pool = .ok found pool := by
  rw [Pool.frame, get_bind, frame_at]
  rfl

theorem setFrame_ok : setFrame id frame pool = .ok () (pool.place id frame) := rfl

theorem setDirty_ok (frame_at : pool.frames[id.index]? = some found) :
    setDirty id pool = .ok () (pool.place id { found with dirty := true }) := by
  rw [setDirty, bind_ok (frame_ok frame_at)]
  rfl

theorem overwriteFrame_ok {change : Page → Outcome Page} {bytes : Page}
    (frame_at : pool.frames[id.index]? = some found) (done : change found.page = .ok bytes) :
    overwriteFrame id change pool = .ok () (pool.place id { found with page := bytes }) := by
  rw [overwriteFrame, bind_ok (frame_ok frame_at), bind_ok (lift_ok done)]
  rfl

theorem count_ok (bump : Stats → Stats) :
    count bump pool = .ok () { pool with stats := bump pool.stats } := rfl

/-! ### Pins -/

def pinned (pool : Pool σ) (id : FrameId) (frame : Frame) (history : AccessHistory) : Pool σ :=
  { pool.place id { frame with pins := frame.pins + 1 } with
    replacer :=
      if frame.pins = 0 then pool.replacer.permitted id history false else pool.replacer }

def released (pool : Pool σ) (id : FrameId) (frame : Frame) (history : AccessHistory) (dirty : Bool) :
    Pool σ :=
  { pool.place id { frame with pins := frame.pins - 1, dirty := frame.dirty || dirty } with
    replacer :=
      if frame.pins = 1 then pool.replacer.permitted id history true else pool.replacer }

theorem Seat.histories_pinned (seat : pool.Seat page id frame history) (other : FrameId) :
    (pool.pinned id frame history).replacer.histories[other]? =
      if id = other then some { history with evictable := false }
      else pool.replacer.histories[other]? := by
  unfold pinned
  have evictable := seat.evictable
  by_cases unpinned : frame.pins = 0
  · simp [unpinned, LruK.histories_permitted]
  · have same : history = { history with evictable := false } := by
      cases history
      simpa [unpinned] using evictable
    simp only [unpinned, if_false]
    split
    · rename_i here
      rw [← here, seat.tracked, ← same]
    · rfl

theorem Seat.histories_released (seat : pool.Seat page id frame history) (pinned : 0 < frame.pins)
    (dirty : Bool) (other : FrameId) :
    (pool.released id frame history dirty).replacer.histories[other]? =
      if id = other then some { history with evictable := decide (frame.pins - 1 = 0) }
      else pool.replacer.histories[other]? := by
  unfold released
  have evictable := seat.evictable
  by_cases last : frame.pins = 1
  · simp [last, LruK.histories_permitted]
  · have more : ¬ frame.pins - 1 = 0 := by omega
    have same : history = { history with evictable := false } := by
      cases history
      simpa [show ¬ frame.pins = 0 by omega] using evictable
    simp only [last, if_false, more, decide_false]
    split
    · rename_i here
      rw [← here, seat.tracked, ← same]
    · rfl

theorem Bookkept.pinned {spare : List FrameId} (kept : Bookkept spare pool)
    (seat : pool.Seat page id frame history) : Bookkept spare (pool.pinned id frame history) := by
  refine kept.reseat seat seat.holds seat.histories_pinned (by simp) ?_ ?_
  · split <;> rfl
  · split
    · rename_i unpinned
      exact kept.counted.permitted seat.tracked (by rw [seat.evictable]; simp [unpinned])
    · exact kept.counted

theorem Bookkept.released {spare : List FrameId} (kept : Bookkept spare pool)
    (seat : pool.Seat page id frame history) (pinned : 0 < frame.pins) (dirty : Bool) :
    Bookkept spare (pool.released id frame history dirty) := by
  refine kept.reseat seat seat.holds (seat.histories_released pinned dirty) rfl ?_ ?_
  · split <;> rfl
  · split
    · rename_i last
      exact kept.counted.permitted seat.tracked (by rw [seat.evictable]; simp [last])
    · exact kept.counted

theorem Seat.pinned (seat : pool.Seat page id frame history) :
    (pool.pinned id frame history).Seat page id { frame with pins := frame.pins + 1 }
      { history with evictable := false } where
  resident := seat.resident
  frame_at := (frames_set seat.index_lt _ _).trans (if_pos rfl)
  holds := seat.holds
  tracked := (seat.histories_pinned id).trans (if_pos rfl)
  evictable := by simp

theorem Bookkept.pinFrame_ok {spare : List FrameId} (kept : Bookkept spare pool)
    (seat : pool.Seat page id frame history) (room : frame.pins + 1 < wordBound) :
    pinFrame id pool = .ok () (pool.pinned id frame history) := by
  have pin : frame.pin = .ok { frame with pins := frame.pins + 1 } := if_pos room
  rw [pinFrame, bind_ok (frame_ok seat.frame_at), bind_ok (lift_ok pin)]
  by_cases unpinned : frame.pins = 0
  · have permit : pool.replacer.permit id false = .ok (pool.replacer.permitted id history false) :=
      LruK.permit_eq kept.counted seat.tracked (by rw [seat.evictable]; simp [unpinned])
    rw [if_pos (by simp [unpinned]), bind_ok (updateReplacer_ok permit)]
    simp [setFrame_ok, Pool.pinned, unpinned, place]
  · rw [if_neg (by simpa using unpinned)]
    simp [setFrame_ok, Pool.pinned, unpinned, place]

theorem pinFrame_full (frame_at : pool.frames[id.index]? = some frame)
    (full : ¬ frame.pins + 1 < wordBound) :
    pinFrame id pool = .error (.violation .overflow) pool := by
  have pin : frame.pin = .error (.violation .overflow) := if_neg full
  rw [pinFrame, bind_ok (frame_ok frame_at), bind_error (lift_error pin)]

/-- All that giving a pin back can do. -/
inductive Unpinned (pool : Pool σ) (page : PageId) (dirty : Bool) : Result σ Bool → Prop where
  | absent (absent : pool.residents[page]? = none) : Unpinned pool page dirty (.ok false pool)
  | unpinned {id : FrameId} {frame : Frame} {history : AccessHistory}
      (seat : pool.Seat page id frame history) (unpinned : frame.pins = 0) :
      Unpinned pool page dirty (.ok false pool)
  | released {id : FrameId} {frame : Frame} {history : AccessHistory}
      (seat : pool.Seat page id frame history) (pinned : 0 < frame.pins) :
      Unpinned pool page dirty (.ok true (pool.released id frame history dirty))

theorem Bookkept.unpin_released {spare : List FrameId} (kept : Bookkept spare pool)
    (seat : pool.Seat page id frame history) (pinned : 0 < frame.pins) (dirty : Bool) :
    unpin page dirty pool = .ok true (pool.released id frame history dirty) := by
  have taken : frame.unpin? = some { frame with pins := frame.pins - 1 } :=
    if_neg (Nat.ne_of_gt pinned)
  simp only [Pool.unpin, get_bind, seat.resident, bind_ok (frame_ok seat.frame_at), taken,
    bind_ok setFrame_ok]
  by_cases last : frame.pins = 1
  · have permit : pool.replacer.permit id true = .ok (pool.replacer.permitted id history true) :=
      LruK.permit_eq kept.counted seat.tracked (by rw [seat.evictable]; simp [last])
    simp only [last, Nat.sub_self, if_true, get_bind, place, permit, modify_bind, pure_apply, Pool.released]
  · have more : ¬ frame.pins - 1 = 0 := by omega
    simp [last, more, pure_apply, Pool.released, place]

theorem Bookkept.unpin {spare : List FrameId} (kept : Bookkept spare pool) (page : PageId) (dirty : Bool) :
    Unpinned pool page dirty (unpin page dirty pool) := by
  cases resident : pool.residents[page]? with
  | none =>
    simp only [Pool.unpin, get_bind, resident]
    exact .absent resident
  | some id =>
    obtain ⟨frame, history, seat⟩ := kept.seat resident
    by_cases unpinned : frame.pins = 0
    · have none_left : frame.unpin? = none := if_pos unpinned
      simp only [Pool.unpin, get_bind, resident, bind_ok (frame_ok seat.frame_at), none_left]
      exact .unpinned seat unpinned
    · have pinned := Nat.pos_of_ne_zero unpinned
      rw [kept.unpin_released seat pinned dirty]
      exact .released seat pinned

/-! ### Pools that operations leave -/

def saved (pool : Pool σ) (id : FrameId) (frame : Frame) (disk : Worker σ) : Pool σ :=
  { pool.place id { frame with dirty := false } with
    disk
    stats := { pool.stats with writes := pool.stats.writes + 1 } }

def unsaved (pool : Pool σ) (id : FrameId) (frame : Frame) (disk : Worker σ) : Pool σ :=
  { pool.place id { frame with dirty := true } with disk }

def evicted (pool : Pool σ) (page : PageId) (id : FrameId) : Pool σ :=
  { pool.vacate page id with stats := { pool.stats with evictions := pool.stats.evictions + 1 } }

def hit (pool : Pool σ) (id : FrameId) (frame : Frame) (history : AccessHistory) : Pool σ :=
  { pool.pinned id frame history with
    replacer := (pool.pinned id frame history).replacer.accessed id
    stats := { pool.stats with hits := pool.stats.hits + 1 } }

def missed (pool : Pool σ) : Pool σ :=
  { pool with stats := { pool.stats with misses := pool.stats.misses + 1 } }

def didRead (pool : Pool σ) (disk : Worker σ) : Pool σ :=
  { pool with disk, stats := { pool.stats with reads := pool.stats.reads + 1 } }

/-- The pool after bytes were read for a page that has a spare frame. -/
def loaded (pool : Pool σ) (page : PageId) (id : FrameId) (frame : Frame) (bytes : Page)
    (disk : Worker σ) : Pool σ :=
  (pool.didRead disk).install page id { frame with page := bytes }

theorem place_same (frame_at : pool.frames[id.index]? = some frame) : pool.place id frame = pool := by
  have same : pool.frames.setIfInBounds id.index frame = pool.frames := by
    apply Array.ext_getElem?
    intro i
    rw [frames_set (Array.getElem?_eq_some_iff.mp frame_at).1]
    split
    · rename_i here
      rw [← here, frame_at]
    · rfl
  rw [place, same]

theorem install_place (pool : Pool σ) (page : PageId) (id : FrameId) (first second : Frame) :
    (pool.place id first).install page id second = pool.install page id second := by
  simp [place, Pool.install]

theorem unsaved_of_dirty (frame_at : pool.frames[id.index]? = some frame) (dirty : frame.dirty = true)
    (disk : Worker σ) : pool.unsaved id frame disk = { pool with disk } := by
  have same : ({ frame with dirty := true } : Frame) = frame := by
    cases frame
    simp_all
  rw [Pool.unsaved, same, place_same frame_at]

theorem Seat.saved (seat : pool.Seat page id frame history) (disk : Worker σ) :
    (pool.saved id frame disk).Seat page id { frame with dirty := false } history where
  resident := seat.resident
  frame_at := (frames_set seat.index_lt _ _).trans (if_pos rfl)
  holds := seat.holds
  tracked := seat.tracked
  evictable := seat.evictable

theorem Bookkept.saved {spare : List FrameId} (kept : Bookkept spare pool)
    (frame_at : pool.frames[id.index]? = some frame) (disk : Worker σ) :
    Bookkept spare (pool.saved id frame disk) := by
  have placed : Bookkept spare (pool.place id { frame with dirty := false }) :=
    kept.retouch frame_at rfl rfl
  exact placed.of_same rfl rfl rfl rfl (UInt32.le_refl _)

theorem Bookkept.accessed {spare : List FrameId} (kept : Bookkept spare pool)
    (seat : pool.Seat page id frame history) :
    Bookkept spare { pool with replacer := pool.replacer.accessed id } := by
  have counted := kept.counted.accessed (kept.counted.tracked_lt seat.tracked)
  have reseated := kept.reseat seat seat.holds (LruK.histories_accessed pool.replacer id)
    (by rw [seat.tracked]; exact seat.evictable) rfl counted
  rwa [place_same seat.frame_at] at reseated

theorem Bookkept.hit {spare : List FrameId} (kept : Bookkept spare pool)
    (seat : pool.Seat page id frame history) : Bookkept spare (pool.hit id frame history) :=
  ((kept.pinned seat).accessed seat.pinned).of_same rfl rfl rfl rfl (UInt32.le_refl _)

theorem Bookkept.occupy_installed (kept : Bookkept [id] pool) (idle : pool.Idle id frame) (page : PageId) :
    occupy id page pool = .ok () (pool.install page id frame) := by
  have pin : Frame.pin { frame with holds := some page } =
      .ok { frame with holds := some page, pins := 1 } := by
    simp [Frame.pin, idle.pins, wordBound, pure, Except.pure]
  have access : pool.replacer.access id = .ok (pool.replacer.accessed id) := LruK.access_eq
    (by rw [kept.frameCount_eq]; exact idle.index_lt)
  rw [occupy, bind_ok (frame_ok idle.frame_at), bind_ok (lift_ok pin), bind_ok setFrame_ok, modify_bind]
  exact updateReplacer_ok access

theorem count_missed : count (fun stats => { stats with misses := stats.misses + 1 }) pool =
    .ok () pool.missed := rfl

theorem count_didRead {disk : Worker σ} :
    count (fun stats => { stats with reads := stats.reads + 1 }) { pool with disk } =
      .ok () (pool.didRead disk) := rfl

theorem Bookkept.missed {spare : List FrameId} (kept : Bookkept spare pool) : Bookkept spare pool.missed :=
  kept.of_same rfl rfl rfl rfl (UInt32.le_refl _)

/-! ### Requests -/

variable [BackingStore σ]

theorem request_ok (wanted : Request) : request wanted pool =
    .ok (pool.disk.perform wanted).1 { pool with disk := (pool.disk.perform wanted).2 } := rfl

/-- All that writing a frame to the store can do. -/
inductive Saved (pool : Pool σ) (id : FrameId) (page : PageId) (frame : Frame) :
    Result σ (Except Error Unit) → Prop where
  | written {data : Page} {disk : Worker σ}
      (served : pool.disk.perform (.write page frame.page) = (.ok data, disk)) :
      Saved pool id page frame (.ok (.ok ()) (pool.saved id frame disk))
  | refused {error : Error} {disk : Worker σ}
      (failed : pool.disk.perform (.write page frame.page) = (.error error, disk)) :
      Saved pool id page frame (.ok (.error error) (pool.unsaved id frame disk))

theorem save_saved (frame_at : pool.frames[id.index]? = some frame) (page : PageId) :
    Saved pool id page frame (save id page pool) := by
  have small := (Array.getElem?_eq_some_iff.mp frame_at).1
  rw [save, bind_ok (frame_ok frame_at), bind_ok setFrame_ok, bind_ok (request_ok _)]
  cases outcome : pool.disk.perform (.write page frame.page) with
  | mk answer disk =>
    cases answer with
    | ok data =>
      simp only [place, outcome, bind_ok (count_ok _)]
      exact .written outcome
    | error error =>
      have clean_at : (pool.frames.setIfInBounds id.index { frame with dirty := false })[id.index]? =
        some { frame with dirty := false } := (frames_set small _ _).trans (if_pos rfl)
      simp only [place, outcome]
      rw [bind_ok (setDirty_ok clean_at), pure_apply]
      simp only [place, Array.setIfInBounds_setIfInBounds]
      exact .refused outcome

/-! ### Making room -/

/-- All that claiming a frame can do. -/
inductive Claimed (pool : Pool σ) : Result σ FrameId → Prop where
  | free {id : FrameId} {rest : List FrameId} (free : pool.free = id :: rest) :
      Claimed pool (.ok id { pool with free := rest })
  | crowded (full : pool.free = []) (fixed : pool.replacer.victim = none) :
      Claimed pool (.error (.error .noFreeFrames) pool)
  | clean {page : PageId} {id : FrameId} {frame : Frame} {history : AccessHistory} (full : pool.free = [])
      (chosen : pool.replacer.victim = some id) (seat : pool.Seat page id frame history)
      (unpinned : frame.pins = 0) (clean : frame.dirty = false) :
      Claimed pool (.ok id (pool.evicted page id))
  | saved {page : PageId} {id : FrameId} {frame : Frame} {history : AccessHistory} {data : Page}
      {disk : Worker σ} (full : pool.free = []) (chosen : pool.replacer.victim = some id)
      (seat : pool.Seat page id frame history) (unpinned : frame.pins = 0) (dirty : frame.dirty = true)
      (served : pool.disk.perform (.write page frame.page) = (.ok data, disk)) :
      Claimed pool (.ok id ((pool.saved id frame disk).evicted page id))
  | unsaved {page : PageId} {id : FrameId} {frame : Frame} {history : AccessHistory} {error : Error}
      {disk : Worker σ} (full : pool.free = []) (chosen : pool.replacer.victim = some id)
      (seat : pool.Seat page id frame history) (unpinned : frame.pins = 0) (dirty : frame.dirty = true)
      (failed : pool.disk.perform (.write page frame.page) = (.error error, disk)) :
      Claimed pool (.error (.error error) { pool with disk })

theorem Bookkept.claimFrame (kept : Bookkept [] pool) : Claimed pool (claimFrame pool) := by
  rw [Pool.claimFrame, get_bind]
  cases free : pool.free with
  | cons id rest => exact .free free
  | nil =>
    cases chosen : pool.replacer.victim with
    | none => exact .crowded free chosen
    | some id =>
      obtain ⟨page, frame, history, seat, unpinned⟩ := kept.victim_seat chosen
      have remove := LruK.remove_eq kept.counted (by rw [seat.allows]; simpa using unpinned)
      simp only [bind_ok (frame_ok seat.frame_at), seat.holds]
      cases dirty : frame.dirty with
      | true =>
        have effect := save_saved seat.frame_at page
        generalize run : save id page pool = result at effect
        cases effect with
        | @written data disk served =>
          have remove : (pool.saved id frame disk).replacer.remove id = _ := remove
          simp only [if_true, bind_ok run, settle, bind_ok (pure_apply _), modify_bind]
          rw [bind_ok (updateReplacer_ok remove), bind_ok setFrame_ok, bind_ok (count_ok _)]
          exact .saved free chosen seat unpinned dirty served
        | refused failed =>
          rw [unsaved_of_dirty seat.frame_at dirty] at run
          simp only [if_true, bind_ok run, settle]
          rw [bind_error (throw_apply _)]
          exact .unsaved free chosen seat unpinned dirty failed
      | false =>
        simp only [Bool.false_eq_true, if_false, modify_bind]
        rw [bind_ok (updateReplacer_ok remove), bind_ok setFrame_ok, bind_ok (count_ok _)]
        exact .clean free chosen seat unpinned dirty

omit [BackingStore σ] in
/-- A frame without a page is as it was made. -/
def Blank (pool : Pool σ) : Prop := ∀ frame ∈ pool.frames, frame.holds = none → frame = Frame.empty

omit [BackingStore σ] in
theorem blank_set {fresh : Frame} (blank : pool.Blank) (seated : fresh.holds = none → fresh = Frame.empty) :
    (pool.place id fresh).Blank := by
  intro frame member bare
  rcases Array.mem_or_eq_of_mem_setIfInBounds member with old | rfl
  · exact blank frame old bare
  · exact seated bare

theorem Claimed.blank {id : FrameId} {later : Pool σ} (claimed : Claimed pool (.ok id later)) (blank : pool.Blank) :
    later.Blank := by
  cases claimed with
  | free => exact blank
  | clean => exact blank_set blank fun _ => rfl
  | @saved page _ frame _ _ disk full chosen seat =>
    have written : (pool.saved id frame disk).Blank := blank_set blank fun bare => by
      rw [seat.holds] at bare
      cases bare
    exact blank_set written fun _ => rfl

theorem Claimed.next_eq {result : Result σ FrameId} (claimed : Claimed pool result) :
    match result with | .ok _ later | .error _ later => later.next = pool.next := by
  cases claimed <;> rfl

theorem Claimed.absent {later : Pool σ} (claimed : Claimed pool (.ok id later))
    (absent : pool.residents[page]? = none) : later.residents[page]? = none := by
  cases claimed with
  | free => exact absent
  | clean => simp [evicted, vacate, Std.TreeMap.getElem?_erase, absent]
  | saved => simp [evicted, vacate, Pool.saved, place, Std.TreeMap.getElem?_erase, absent]

theorem Claimed.kept_ok {later : Pool σ} (claimed : Claimed pool (.ok id later))
    (kept : Bookkept [] pool) : Bookkept [id] later := by
  cases claimed with
  | free free => exact kept.reorder (by rw [free]; exact .refl _)
  | clean full chosen seat unpinned clean =>
    exact (kept.vacate seat unpinned).of_same rfl rfl rfl rfl (UInt32.le_refl _)
  | @saved page _ frame history data disk full chosen seat unpinned dirty served =>
    have vacated := (kept.saved seat.frame_at disk).vacate (seat.saved disk) unpinned
    exact vacated.of_same rfl rfl rfl rfl (UInt32.le_refl _)

theorem Claimed.kept_error {failure : Failure} {later : Pool σ}
    (claimed : Claimed pool (.error failure later)) (kept : Bookkept [] pool) : Bookkept [] later := by
  cases claimed with
  | crowded => exact kept
  | unsaved => exact kept.of_same rfl rfl rfl rfl (UInt32.le_refl _)

/-! ### Pages -/

/-- All that making a page can do. -/
inductive Made (pool : Pool σ) : Result σ (PageId × FrameId) → Prop where
  | refused {failure : Failure} {later : Pool σ} (claimed : Claimed pool (.error failure later)) :
      Made pool (.error failure later)
  | exhausted {id : FrameId} {later : Pool σ} (claimed : Claimed pool (.ok id later))
      (last : ¬ pool.next.toNat + 1 < wordBound) : Made pool (.error (.violation .overflow) later)
  | made {id : FrameId} {frame : Frame} {later : Pool σ} (claimed : Claimed pool (.ok id later))
      (idle : later.Idle id frame) (room : pool.next.toNat + 1 < wordBound) :
      Made pool (.ok (⟨pool.next⟩, id)
        (Pool.install { later with next := pool.next + 1 } ⟨pool.next⟩ id frame))

theorem Bookkept.new (kept : Bookkept [] pool) : Made pool (new pool) := by
  have claimed := kept.claimFrame
  generalize run : Pool.claimFrame pool = result at claimed
  cases result with
  | error failure later =>
    rw [Pool.new, bind_error run]
    exact .refused claimed
  | ok id later =>
    have spare := claimed.kept_ok kept
    have next : later.next = pool.next := claimed.next_eq
    obtain ⟨frame, idle⟩ := spare.idle List.mem_cons_self
    rw [Pool.new, bind_ok run, get_bind]
    by_cases room : pool.next.toNat + 1 < wordBound
    · have succ : PageId.succ ⟨later.next⟩ = .ok (pool.next + 1) := by
        rw [next]
        exact if_pos room
      have numbered : Bookkept [id] { later with next := pool.next + 1 } := by
        refine spare.of_same rfl rfl rfl rfl ?_
        rw [next, UInt32.le_iff_toNat_le, UInt32.toNat_add]
        simp only [wordBound] at room
        simp
        omega
      have idle : Pool.Idle { later with next := pool.next + 1 } id frame :=
        ⟨idle.frame_at, idle.holds, idle.pins, idle.untracked⟩
      rw [bind_ok (lift_ok succ), modify_bind, bind_ok (numbered.occupy_installed idle _), pure_apply, next]
      exact .made claimed ⟨idle.frame_at, idle.holds, idle.pins, idle.untracked⟩ room
    · have overflow : PageId.succ ⟨later.next⟩ = .error (.violation .overflow) := by
        rw [next]
        exact if_neg room
      rw [bind_error (lift_error overflow)]
      exact .exhausted claimed room

/-- All that fetching a page can do. -/
inductive Fetched (pool : Pool σ) (page : PageId) : Result σ FrameId → Prop where
  | unknown (unknown : ¬ (page.isValid = true ∧ page.number < pool.next)) :
      Fetched pool page (.error (.error (.invalidPageId page)) pool)
  | hit {id : FrameId} {frame : Frame} {history : AccessHistory}
      (known : page.isValid = true ∧ page.number < pool.next)
      (seat : pool.Seat page id frame history) (room : frame.pins + 1 < wordBound) :
      Fetched pool page (.ok id (pool.hit id frame history))
  | full {id : FrameId} {frame : Frame} {history : AccessHistory}
      (seat : pool.Seat page id frame history) (full : ¬ frame.pins + 1 < wordBound) :
      Fetched pool page (.error (.violation .overflow) pool)
  | refused {failure : Failure} {later : Pool σ} (absent : pool.residents[page]? = none)
      (claimed : Claimed pool.missed (.error failure later)) : Fetched pool page (.error failure later)
  | unread {id : FrameId} {later : Pool σ} {error : Error} {disk : Worker σ}
      (absent : pool.residents[page]? = none) (claimed : Claimed pool.missed (.ok id later))
      (failed : later.disk.perform (.read page) = (.error error, disk)) :
      Fetched pool page (.error (.error error) { later with disk, free := later.free ++ [id] })
  | loaded {id : FrameId} {frame : Frame} {later : Pool σ} {bytes : Page} {disk : Worker σ}
      (known : page.isValid = true ∧ page.number < pool.next) (absent : pool.residents[page]? = none)
      (claimed : Claimed pool.missed (.ok id later)) (idle : later.Idle id frame)
      (served : later.disk.perform (.read page) = (.ok bytes, disk)) :
      Fetched pool page (.ok id (later.loaded page id frame bytes disk))

theorem Bookkept.fetch_absent (kept : Bookkept [] pool)
    (known : page.isValid = true ∧ page.number < pool.next) (absent : pool.residents[page]? = none) :
    Fetched pool page (fetch page pool) := by
  have in_range : ¬ ((!page.isValid || decide (pool.next ≤ page.number)) = true) := by
    simp [known.1, UInt32.not_le.mpr known.2]
  have claimed := kept.missed.claimFrame
  generalize run : Pool.claimFrame pool.missed = result at claimed
  simp only [Pool.fetch, get_bind, if_neg in_range, absent, bind_ok count_missed]
  cases result with
  | error failure later =>
    rw [bind_error run]
    exact .refused absent claimed
  | ok id later =>
    have spare := claimed.kept_ok kept.missed
    obtain ⟨frame, idle⟩ := spare.idle List.mem_cons_self
    rw [bind_ok run, bind_ok (request_ok _)]
    cases outcome : later.disk.perform (.read page) with
    | mk answer disk =>
      cases answer with
      | error error =>
        simp only [modify_bind]
        exact .unread absent claimed outcome
      | ok bytes =>
        have read : Bookkept [id] (later.didRead disk) :=
          spare.of_same rfl rfl rfl rfl (UInt32.le_refl _)
        have placed : Bookkept [id] ((later.didRead disk).place id { frame with page := bytes }) :=
          read.retouch idle.frame_at rfl rfl
        have idle_placed : ((later.didRead disk).place id { frame with page := bytes }).Idle id
            { frame with page := bytes } :=
          ⟨(frames_set idle.index_lt _ _).trans (if_pos rfl), idle.holds, idle.pins, idle.untracked⟩
        have overwrite : overwriteFrame id (fun _ => return bytes) (later.didRead disk) =
            .ok () ((later.didRead disk).place id { frame with page := bytes }) :=
          overwriteFrame_ok idle.frame_at rfl
        have done : Fetched pool page (.ok id (later.loaded page id frame bytes disk)) :=
          .loaded known absent claimed idle outcome
        simp only [bind_ok count_didRead]
        rw [bind_ok overwrite, bind_ok (placed.occupy_installed idle_placed page), pure_apply,
          install_place]
        exact done

theorem fetch_unknown (unknown : ¬ (page.isValid = true ∧ page.number < pool.next)) :
    fetch page pool = .error (.error (.invalidPageId page)) pool := by
  have out_of_range : (!page.isValid || decide (pool.next ≤ page.number)) = true := by
    rw [← UInt32.not_le] at unknown
    simpa [Classical.or_iff_not_imp_left] using unknown
  rw [Pool.fetch, get_bind, if_pos out_of_range]
  rfl

theorem Bookkept.fetch (kept : Bookkept [] pool) (page : PageId) :
    Fetched pool page (fetch page pool) := by
  by_cases known : page.isValid = true ∧ page.number < pool.next
  · cases resident : pool.residents[page]? with
    | none => exact kept.fetch_absent known resident
    | some id =>
      have in_range : ¬ ((!page.isValid || decide (pool.next ≤ page.number)) = true) := by
        simp [known.1, UInt32.not_le.mpr known.2]
      obtain ⟨frame, history, seat⟩ := kept.seat resident
      simp only [Pool.fetch, get_bind, if_neg in_range, resident]
      by_cases room : frame.pins + 1 < wordBound
      · have access : (pool.pinned id frame history).replacer.access id = .ok _ := LruK.access_eq
          (by rw [(kept.pinned seat).frameCount_eq]; exact (seat.pinned).index_lt)
        rw [bind_ok (kept.pinFrame_ok seat room), bind_ok (updateReplacer_ok access), bind_ok (count_ok _)]
        exact .hit known seat room
      · rw [bind_error (pinFrame_full seat.frame_at room)]
        exact .full seat room
  · rw [fetch_unknown known]
    exact .unknown known

/-! ### Flushing -/

omit [BackingStore σ] in
/-- The replacer after a page was pinned for a moment. -/
def paused (replacer : LruK) (id : FrameId) (frame : Frame) (history : AccessHistory) : LruK :=
  if frame.pins = 0 then
    (replacer.permitted id history false).permitted id { history with evictable := false } true
  else replacer

def flushed (pool : Pool σ) (id : FrameId) (frame : Frame) (history : AccessHistory) (disk : Worker σ) :
    Pool σ :=
  { pool.saved id frame disk with replacer := paused pool.replacer id frame history }

def unflushed (pool : Pool σ) (id : FrameId) (frame : Frame) (history : AccessHistory)
    (disk : Worker σ) : Pool σ :=
  { pool.unsaved id frame disk with replacer := paused pool.replacer id frame history }

/-- All that flushing a page can do. -/
inductive Flushed (pool : Pool σ) (page : PageId) : Result σ Unit → Prop where
  | absent (absent : pool.residents[page]? = none) :
      Flushed pool page (.error (.error (.pageNotResident page)) pool)
  | full {id : FrameId} {frame : Frame} {history : AccessHistory}
      (seat : pool.Seat page id frame history) (full : ¬ frame.pins + 1 < wordBound) :
      Flushed pool page (.error (.violation .overflow) pool)
  | written {id : FrameId} {frame : Frame} {history : AccessHistory} {data : Page} {disk : Worker σ}
      (seat : pool.Seat page id frame history) (room : frame.pins + 1 < wordBound)
      (served : pool.disk.perform (.write page frame.page) = (.ok data, disk)) :
      Flushed pool page (.ok () (pool.flushed id frame history disk))
  | refused {id : FrameId} {frame : Frame} {history : AccessHistory} {error : Error} {disk : Worker σ}
      (seat : pool.Seat page id frame history) (room : frame.pins + 1 < wordBound)
      (failed : pool.disk.perform (.write page frame.page) = (.error error, disk)) :
      Flushed pool page (.error (.error error) (pool.unflushed id frame history disk))

omit [BackingStore σ] in
theorem Seat.unsaved (seat : pool.Seat page id frame history) (disk : Worker σ) :
    (pool.unsaved id frame disk).Seat page id { frame with dirty := true } history where
  resident := seat.resident
  frame_at := (frames_set seat.index_lt _ _).trans (if_pos rfl)
  holds := seat.holds
  tracked := seat.tracked
  evictable := seat.evictable

omit [BackingStore σ] in
theorem Bookkept.unsaved {spare : List FrameId} (kept : Bookkept spare pool)
    (frame_at : pool.frames[id.index]? = some frame) (disk : Worker σ) :
    Bookkept spare (pool.unsaved id frame disk) := by
  have placed : Bookkept spare (pool.place id { frame with dirty := true }) :=
    kept.retouch frame_at rfl rfl
  exact placed.of_same rfl rfl rfl rfl (UInt32.le_refl _)

omit [BackingStore σ] in
/-- The pin that a flush takes for its time leaves nothing behind but news for the replacer. -/
theorem released_pinned (disk : Worker σ) :
    ((pool.pinned id frame history).saved id { frame with pins := frame.pins + 1 } disk).released id
      { frame with pins := frame.pins + 1, dirty := false } { history with evictable := false } false =
      pool.flushed id frame history disk ∧
    ((pool.pinned id frame history).unsaved id { frame with pins := frame.pins + 1 } disk).released id
      { frame with pins := frame.pins + 1, dirty := true } { history with evictable := false } false =
      pool.unflushed id frame history disk := by
  by_cases unpinned : frame.pins = 0 <;>
    simp [Pool.flushed, Pool.unflushed, Pool.released, Pool.pinned, Pool.saved, Pool.unsaved, paused, place,
      unpinned]

omit [BackingStore σ] in
theorem Bookkept.flushed {spare : List FrameId} (kept : Bookkept spare pool)
    (seat : pool.Seat page id frame history) (disk : Worker σ) :
    Bookkept spare (pool.flushed id frame history disk) := by
  rw [← (released_pinned disk).1]
  exact ((kept.pinned seat).saved seat.pinned.frame_at disk).released (seat.pinned.saved disk)
    (Nat.succ_pos _) false

omit [BackingStore σ] in
theorem Bookkept.unflushed {spare : List FrameId} (kept : Bookkept spare pool)
    (seat : pool.Seat page id frame history) (disk : Worker σ) :
    Bookkept spare (pool.unflushed id frame history disk) := by
  rw [← (released_pinned disk).2]
  exact ((kept.pinned seat).unsaved seat.pinned.frame_at disk).released (seat.pinned.unsaved disk)
    (Nat.succ_pos _) false

theorem Bookkept.flush {spare : List FrameId} (kept : Bookkept spare pool) (page : PageId) :
    Flushed pool page (flush page pool) := by
  cases resident : pool.residents[page]? with
  | none =>
    simp only [Pool.flush, get_bind, resident]
    exact .absent resident
  | some id =>
    obtain ⟨frame, history, seat⟩ := kept.seat resident
    simp only [Pool.flush, get_bind, resident]
    by_cases room : frame.pins + 1 < wordBound
    · have pinned := kept.pinned seat
      have effect := save_saved seat.pinned.frame_at page
      generalize run : save id page (pool.pinned id frame history) = result at effect
      rw [bind_ok (kept.pinFrame_ok seat room)]
      cases effect with
      | @written data disk served =>
        have unpin := (pinned.saved seat.pinned.frame_at disk).unpin_released (seat.pinned.saved disk)
          (Nat.succ_pos _) false
        rw [bind_ok run, bind_ok unpin, (released_pinned disk).1]
        exact .written seat room served
      | @refused error disk failed =>
        have unpin := (pinned.unsaved seat.pinned.frame_at disk).unpin_released (seat.pinned.unsaved disk)
          (Nat.succ_pos _) false
        rw [bind_ok run, bind_ok unpin, (released_pinned disk).2]
        exact .refused seat room failed
    · rw [bind_error (pinFrame_full seat.frame_at room)]
      exact .full seat room

/-! ### Deleting -/

def dropped (pool : Pool σ) (page : PageId) (id : FrameId) : Pool σ :=
  { pool.vacate page id with
    free := pool.free ++ [id]
    stats := { pool.stats with deletes := pool.stats.deletes + 1 } }

omit [BackingStore σ] in
theorem Bookkept.dropped {spare : List FrameId} (kept : Bookkept spare pool)
    (seat : pool.Seat page id frame history) (unpinned : frame.pins = 0) :
    Bookkept spare (pool.dropped page id) := by
  have listed : Bookkept spare { pool.vacate page id with free := pool.free ++ [id] } := by
    refine (kept.vacate seat unpinned).reorder ?_
    rw [← List.append_assoc]
    exact List.perm_append_singleton id _
  exact listed.of_same rfl rfl rfl rfl (UInt32.le_refl _)

/-- All that deleting a page can do. -/
inductive Deleted (pool : Pool σ) (page : PageId) : Result σ Bool → Prop where
  | absent (absent : pool.residents[page]? = none) :
      Deleted pool page
        (.ok true { pool with stats := { pool.stats with deletes := pool.stats.deletes + 1 } })
  | pinned {id : FrameId} {frame : Frame} {history : AccessHistory}
      (seat : pool.Seat page id frame history) (pinned : 0 < frame.pins) :
      Deleted pool page (.ok false pool)
  | dropped {id : FrameId} {frame : Frame} {history : AccessHistory}
      (seat : pool.Seat page id frame history) (unpinned : frame.pins = 0) :
      Deleted pool page (.ok true (pool.dropped page id))

omit [BackingStore σ] in
theorem Bookkept.delete {spare : List FrameId} (kept : Bookkept spare pool) (page : PageId) :
    Deleted pool page (delete page pool) := by
  cases resident : pool.residents[page]? with
  | none =>
    simp only [Pool.delete, get_bind, resident]
    exact .absent resident
  | some id =>
    obtain ⟨frame, history, seat⟩ := kept.seat resident
    simp only [Pool.delete, get_bind, resident, bind_ok (frame_ok seat.frame_at)]
    by_cases unpinned : frame.pins = 0
    · have remove := LruK.remove_eq kept.counted (by rw [seat.allows]; simpa using unpinned)
      have free : frame.isPinned = false := by simp [Frame.isPinned, unpinned]
      simp only [free, Bool.false_eq_true, if_false, get_bind, remove]
      exact .dropped seat unpinned
    · have pinned := Nat.pos_of_ne_zero unpinned
      simp only [Frame.isPinned, pinned, decide_true, if_true]
      exact .pinned seat pinned

end PagedIndex.Pool
