import Mathlib
import PagedIndex.Pool.Guard
import PagedIndex.Proofs.Pool.Frames
import PagedIndex.Proofs.Store.Keeper

/-!
# The books balance

Any caller, however careless, may call the pool as it likes: between calls every frame is free or the seat
of one page, the replacer tracks just the seats, and it counts as candidates just the pages that nobody
pins. No call runs into a state that its author held impossible.
-/

namespace PagedIndex

/-- The errors with which a replacer refuses an operation. -/
def Error.ofReplacer : Error → Bool
  | .invalidFrameId _ | .unknownFrame _ | .evictableUnchanged _ _ | .frameNotEvictable _ => true
  | _ => false

/-- The errors that some store of a kind answers with. -/
def Error.OfStore (σ : Type) [BackingStore σ] (error : Error) : Prop :=
  ∃ (wanted : Request) (store later : σ),
    Worker.execute wanted store = .error (.error error) later

theorem RamStore.io_of_ofStore {error : Error} (answered : error.OfStore RamStore) : ∃ fault, error = .io fault := by
  obtain ⟨wanted, store, later, outcome⟩ := answered
  cases wanted with
  | read page =>
    replace outcome := (RamStore.read_eq page store).symm.trans outcome
    split at outcome
    · cases outcome
      exact ⟨_, rfl⟩
    · cases outcome
  | write page data =>
    replace outcome := (RamStore.write_eq page data store).symm.trans (Worker.execute_write_error outcome)
    split at outcome
    · cases outcome
      exact ⟨_, rfl⟩
    · cases outcome

theorem FileStore.io_of_ofStore {error : Error} (answered : error.OfStore FileStore) : ∃ fault, error = .io fault := by
  obtain ⟨wanted, store, later, outcome⟩ := answered
  cases wanted with
  | read page =>
    replace outcome := (FileStore.read_eq page store).symm.trans outcome
    unfold PageFile.read at outcome
    split at outcome
    · cases outcome
    · split at outcome
      · cases outcome
        exact ⟨_, rfl⟩
      · split at outcome
        · cases outcome
        · rename_i failed
          split at failed
          · cases failed
          · cases failed
            cases outcome
            exact ⟨_, rfl⟩
  | write page data =>
    have failed := Worker.execute_write_error outcome
    change FileStore.write page data store = _ at failed
    unfold FileStore.write at failed
    simp only [bind, EStateM.bind, FileStore.meet_eq] at failed
    generalize store.volume.troubles.headD none = trouble at failed
    cases trouble with
    | some trouble =>
      cases failed
      exact ⟨_, rfl⟩
    | none =>
      cases room : page.succ with
      | ok next =>
        simp only [room] at failed
        cases failed
      | error failure =>
        simp only [room] at failed
        cases failed
        unfold PageId.succ at room
        split at room <;> cases room

theorem RamStore.not_ofReplacer {error : Error} (answered : error.OfStore RamStore) :
    error.ofReplacer = false := by
  obtain ⟨fault, rfl⟩ := RamStore.io_of_ofStore answered
  rfl

theorem FileStore.not_ofReplacer {error : Error} (answered : error.OfStore FileStore) :
    error.ofReplacer = false := by
  obtain ⟨fault, rfl⟩ := FileStore.io_of_ofStore answered
  rfl

namespace Pool

variable {σ α : Type} {pool later : Pool σ} {page : PageId} {id : FrameId} {frame : Frame}
  {history : AccessHistory}

/-- Every page could be pinned once more, and one more page numbered. -/
structure Roomy (pool : Pool σ) : Prop where
  next : pool.next.toNat + 1 < wordBound
  pins : ∀ page, pool.pinsOf page + 1 < wordBound

/-- No page that is pinned has moved. -/
def Stays (pool later : Pool σ) : Prop :=
  ∀ page, 0 < pool.pinsOf page → later.residents[page]? = pool.residents[page]?

theorem stays_of_residents (same : later.residents = pool.residents) : Stays pool later := by
  intro page _
  rw [same]

theorem stays_vacate (seat : pool.Seat page id frame history) (unpinned : frame.pins = 0) :
    Stays pool (pool.vacate page id) := by
  intro other held
  refine (residents_vacate ..).trans (if_neg ?_)
  rintro rfl
  rw [seat.pinsOf] at held
  omega

theorem stays_install (absent : pool.residents[page]? = none) :
    Stays pool (pool.install page id frame) := by
  intro other held
  refine (residents_install ..).trans (if_neg ?_)
  rintro rfl
  rw [pinsOf_absent absent] at held
  omega

/-- What stays after a move that keeps the pins stays after the next one if it does then. -/
theorem Stays.trans {last : Pool σ} (first : Stays pool later)
    (pins : ∀ page, later.pinsOf page = pool.pinsOf page) (second : Stays later last) :
    Stays pool last := by
  intro page held
  rw [second page (by rw [pins]; exact held), first page held]

/-- The same pages are in the same frames, pinned as often, and the next page has the same number. -/
structure Steady (pool later : Pool σ) : Prop where
  residents : later.residents = pool.residents
  next : later.next = pool.next
  pins : ∀ page, later.pinsOf page = pool.pinsOf page

theorem Steady.roomy (steady : Steady pool later) (roomy : pool.Roomy) : later.Roomy where
  next := by rw [steady.next]; exact roomy.next
  pins page := by rw [steady.pins]; exact roomy.pins page

theorem Steady.of_same (frames : later.frames = pool.frames) (residents : later.residents = pool.residents)
    (next : later.next = pool.next) : Steady pool later :=
  ⟨residents, next, fun page => by rw [pinsOf, frameOf?_congr frames residents, pinsOf]⟩

/-- How a call may end: with the books in order and the pinned pages where they were, and not with an error
of the replacer; with a violation only where there is no room to count on. -/
inductive Orderly [BackingStore σ] (pool : Pool σ) : Result σ α → Prop where
  | ok {value : α} {later : Pool σ} (kept : Bookkept [] later) (stays : Stays pool later) :
      Orderly pool (.ok value later)
  | error {error : Error} {later : Pool σ} (kept : Bookkept [] later) (stays : Stays pool later)
      (cause : error.ofReplacer = true → error.OfStore σ) : Orderly pool (.error (.error error) later)
  | violation {violation : Violation} {later : Pool σ} (cramped : ¬ pool.Roomy) :
      Orderly pool (.error (.violation violation) later)

variable [BackingStore σ]

/-- A call that began after a steady move might as well have begun before it. -/
theorem Orderly.after {result : Result σ α} (steady : Steady pool later) (orderly : Orderly later result) :
    Orderly pool result := by
  cases orderly with
  | ok kept stays => exact .ok kept ((stays_of_residents steady.residents).trans steady.pins stays)
  | error kept stays cause =>
    exact .error kept ((stays_of_residents steady.residents).trans steady.pins stays) cause
  | violation cramped => exact .violation fun roomy => cramped (steady.roomy roomy)

theorem Orderly.discard {β : Type} {action : Action σ α} {value : α → β}
    (orderly : Orderly pool (action pool)) :
    Orderly pool ((action >>= fun answer => pure (value answer)) pool) := by
  generalize run : action pool = result at orderly
  cases orderly with
  | ok kept stays =>
    rw [bind_ok run]
    exact .ok kept stays
  | error kept stays cause =>
    rw [bind_error run]
    exact .error kept stays cause
  | violation cramped =>
    rw [bind_error run]
    exact .violation cramped

theorem ofStore_of_failed {worker disk : Worker σ} {wanted : Request} {error : Error}
    (failed : worker.perform wanted = (.error error, disk)) (serving : error ≠ .schedulerShutdown) :
    error.OfStore σ := by
  rcases Worker.perform_error failed with ⟨gone, -⟩ | ⟨_, outcome, gone | rfl⟩
  · exact absurd gone serving
  · exact absurd gone serving
  · exact ⟨_, _, _, outcome⟩

theorem cause_of_failed {worker disk : Worker σ} {wanted : Request} {error : Error}
    (failed : worker.perform wanted = (.error error, disk)) (replacer : error.ofReplacer = true) :
    error.OfStore σ := by
  apply ofStore_of_failed failed
  rintro rfl
  cases replacer

/-! ### Each operation in turn -/

theorem Claimed.stays {later : Pool σ} (claimed : Claimed pool (.ok id later)) : Stays pool later := by
  cases claimed with
  | free => exact stays_of_residents rfl
  | clean full chosen seat unpinned clean => exact stays_vacate seat unpinned
  | saved full chosen seat unpinned dirty served => exact stays_vacate seat unpinned

theorem Claimed.orderly {failure : Failure} {later : Pool σ}
    (claimed : Claimed pool (.error failure later)) (kept : Bookkept [] pool) :
    Orderly pool (.error failure later : Result σ α) := by
  have kept_later := claimed.kept_error kept
  cases claimed with
  | crowded => exact .error kept_later (stays_of_residents rfl) fun replacer => by cases replacer
  | unsaved full chosen seat unpinned dirty failed =>
    exact .error kept_later (stays_of_residents rfl) (cause_of_failed failed)

theorem Claimed.stays_install {later : Pool σ} (claimed : Claimed pool (.ok id later))
    (kept : Bookkept [] pool) (absent : pool.residents[page]? = none) (frame : Frame) :
    Stays pool (later.install page id frame) :=
  claimed.stays.trans (claimed.pinsOf kept) (Pool.stays_install (claimed.absent absent))

omit [BackingStore σ] in
theorem Bookkept.next_absent {spare : List FrameId} (kept : Bookkept spare pool) :
    pool.residents[(⟨pool.next⟩ : PageId)]? = none := by
  cases resident : pool.residents[(⟨pool.next⟩ : PageId)]? with
  | none => rfl
  | some id => exact absurd (kept.numbered resident) (UInt32.lt_irrefl _)

theorem lt_succ_of_room {number : UInt32} (room : number.toNat + 1 < wordBound) :
    number < number + 1 := by
  rw [UInt32.lt_iff_toNat_lt, UInt32.toNat_add]
  simp only [wordBound] at room
  simp
  omega

theorem toNat_succ_of_lt {number : UInt32} (less : number < number + 1) :
    (number + 1).toNat = number.toNat + 1 := by
  have small := number.toNat_lt
  rw [UInt32.lt_iff_toNat_lt, UInt32.toNat_add] at less
  rw [UInt32.toNat_add]
  change number.toNat < (number.toNat + 1) % 4294967296 at less
  change (number.toNat + 1) % 4294967296 = number.toNat + 1
  omega

theorem Made.orderly {result : Result σ (PageId × FrameId)} (made : Made pool result)
    (kept : Bookkept [] pool) : Orderly pool result := by
  cases made with
  | refused claimed => exact claimed.orderly kept
  | exhausted claimed last => exact .violation fun roomy => last roomy.next
  | @made id frame later claimed idle room =>
    have next : later.next = pool.next := claimed.next_eq
    have less := lt_succ_of_room room
    have numbered : Bookkept [id] { later with next := pool.next + 1 } :=
      (claimed.kept_ok kept).of_same rfl rfl rfl rfl (by rw [next]; exact UInt32.le_of_lt less)
    have stays : Stays pool (later.install ⟨pool.next⟩ id frame) :=
      claimed.stays_install kept kept.next_absent frame
    exact .ok (numbered.install (claimed.absent kept.next_absent) less frame) stays

theorem Fetched.orderly {result : Result σ FrameId} (fetched : Fetched pool page result)
    (kept : Bookkept [] pool) : Orderly pool result := by
  have missed : Steady pool pool.missed := .of_same rfl rfl rfl
  cases fetched with
  | unknown => exact .error kept (stays_of_residents rfl) fun replacer => by cases replacer
  | hit known seat room => exact .ok (kept.hit seat) (stays_of_residents rfl)
  | full seat full =>
    refine .violation fun roomy => full ?_
    rw [← seat.pinsOf]
    exact roomy.pins page
  | refused absent claimed => exact (claimed.orderly kept.missed).after missed
  | @unread id later error disk absent claimed failed =>
    have listed : Bookkept [] { later with free := later.free ++ [id] } :=
      (claimed.kept_ok kept.missed).reorder (List.perm_append_singleton id _)
    have stays : Stays pool later :=
      (stays_of_residents missed.residents).trans missed.pins claimed.stays
    exact .error (listed.of_same rfl rfl rfl rfl (UInt32.le_refl _)) stays (cause_of_failed failed)
  | @loaded id frame later bytes disk known absent claimed idle served =>
    have next : later.next = pool.next := claimed.next_eq
    have read : Bookkept [id] (later.didRead disk) :=
      (claimed.kept_ok kept.missed).of_same rfl rfl rfl rfl (UInt32.le_refl _)
    have installed := read.install (claimed.absent absent) (by
      change page.number < later.next
      rw [next]
      exact known.2) { frame with page := bytes }
    have stays := claimed.stays_install kept.missed absent { frame with page := bytes }
    exact .ok installed ((stays_of_residents missed.residents).trans missed.pins stays)

theorem Unpinned.orderly {dirty : Bool} {result : Result σ Bool}
    (unpinned : Unpinned pool page dirty result) (kept : Bookkept [] pool) : Orderly pool result := by
  cases unpinned with
  | absent => exact .ok kept (stays_of_residents rfl)
  | unpinned => exact .ok kept (stays_of_residents rfl)
  | released seat pinned => exact .ok (kept.released seat pinned dirty) (stays_of_residents rfl)

theorem Deleted.orderly {result : Result σ Bool} (deleted : Deleted pool page result)
    (kept : Bookkept [] pool) : Orderly pool result := by
  cases deleted with
  | absent => exact .ok (kept.of_same rfl rfl rfl rfl (UInt32.le_refl _)) (stays_of_residents rfl)
  | pinned => exact .ok kept (stays_of_residents rfl)
  | dropped seat unpinned => exact .ok (kept.dropped seat unpinned) (stays_vacate seat unpinned)

theorem Flushed.orderly {result : Result σ Unit} (flushed : Flushed pool page result)
    (kept : Bookkept [] pool) : Orderly pool result := by
  cases flushed with
  | absent => exact .error kept (stays_of_residents rfl) fun replacer => by cases replacer
  | full seat full =>
    refine .violation fun roomy => full ?_
    rw [← seat.pinsOf]
    exact roomy.pins page
  | written seat room served => exact .ok (kept.flushed seat _) (stays_of_residents rfl)
  | refused seat room failed =>
    exact .error (kept.unflushed seat _) (stays_of_residents rfl) (cause_of_failed failed)

theorem Flushed.steady {later : Pool σ} (flushed : Flushed pool page (.ok () later))
    (kept : Bookkept [] pool) : Steady pool later := by
  cases flushed with
  | @written id frame history data disk seat room served =>
    refine ⟨rfl, rfl, fun other => ?_⟩
    have frames : (pool.flushed id frame history disk).frameOf? other = _ :=
      (frameOf?_congr rfl rfl other).trans (kept.frameOf?_saved seat disk other)
    rw [pinsOf, frames]
    split
    · rename_i same
      rw [← same, seat.pinsOf]
      rfl
    · rfl

theorem Bookkept.flushEach (kept : Bookkept [] pool) (pages : List PageId) :
    Orderly pool (pages.forM Pool.flush pool) := by
  induction pages generalizing pool with
  | nil => exact .ok kept (stays_of_residents rfl)
  | cons page rest ih =>
    have flushed := kept.flush page
    change Orderly pool ((Pool.flush page >>= fun _ => rest.forM Pool.flush) pool)
    generalize run : Pool.flush page pool = result at flushed
    have orderly := flushed.orderly kept
    cases result with
    | ok value later =>
      rw [bind_ok run]
      cases orderly with
      | ok kept_later stays => exact (ih kept_later).after (flushed.steady kept)
    | error failure later =>
      rw [bind_error run]
      cases orderly with
      | error kept_later stays cause => exact .error kept_later stays cause
      | violation cramped => exact .violation cramped

/-! ### Any calls in any order -/

omit [BackingStore σ] in
/-- What a caller may ask of a pool, with any pages at all and with guards of its own making. -/
inductive Call where
  | new
  | fetch (page : PageId)
  | unpin (page : PageId) (dirty : Bool)
  | flush (page : PageId)
  | flushAll
  | delete (page : PageId)
  | newGuard
  | fetchGuard (page : PageId) (access : Access)
  | release (guard : Guard)
  | forgetStats

def Call.run : Call → Action σ Unit
  | new => do let _ ← Pool.new; return
  | fetch page => do let _ ← Pool.fetch page; return
  | unpin page dirty => do let _ ← Pool.unpin page dirty; return
  | flush page => Pool.flush page
  | flushAll => Pool.flushAll
  | delete page => do let _ ← Pool.delete page; return
  | newGuard => do let _ ← Guard.new; return
  | fetchGuard page access => do let _ ← Guard.fetch page access; return
  | release guard => do let _ ← guard.release; return
  | forgetStats => modify Pool.forgetStats

theorem Bookkept.call (kept : Bookkept [] pool) (call : Call) : Orderly pool (call.run pool) := by
  cases call with
  | new => exact (kept.new.orderly kept).discard
  | fetch page => exact ((kept.fetch page).orderly kept).discard
  | unpin page dirty => exact ((kept.unpin page dirty).orderly kept).discard
  | flush page => exact (kept.flush page).orderly kept
  | flushAll => exact kept.flushEach _
  | delete page => exact ((kept.delete page).orderly kept).discard
  | newGuard =>
    have made : Orderly pool ((Guard.new : Action σ Guard) pool) := (kept.new.orderly kept).discard
    exact made.discard
  | fetchGuard page access =>
    have fetched : Orderly pool (Guard.fetch page access pool) :=
      ((kept.fetch page).orderly kept).discard
    exact fetched.discard
  | release guard =>
    have released : Orderly pool (guard.release pool) := by
      unfold Guard.release
      cases guard.lease with
      | none => exact .ok kept (stays_of_residents rfl)
      | some lease => exact ((kept.unpin lease.page lease.dirty).orderly kept).discard
    exact released.discard
  | forgetStats => exact .ok (kept.of_same rfl rfl rfl rfl (UInt32.le_refl _)) (stays_of_residents rfl)

omit [BackingStore σ] in
def left : Result σ α → Pool σ
  | .ok _ later => later
  | .error _ later => later

omit [BackingStore σ] in
theorem left_discard {β : Type} {action : Action σ α} {value : α → β} :
    left ((action >>= fun answer => pure (value answer)) pool) = left (action pool) := by
  generalize run : action pool = result
  cases result with
  | ok value later =>
    rw [bind_ok run]
    rfl
  | error failure later =>
    rw [bind_error run]
    rfl

/-- What calls leave. One with a guard leaves what the same one without it does. -/
inductive Aftermath (pool : Pool σ) : Pool σ → Prop where
  | nothing : Aftermath pool pool
  | new : Aftermath pool (left (Pool.new pool))
  | fetch (page : PageId) : Aftermath pool (left (Pool.fetch page pool))
  | unpin (page : PageId) (dirty : Bool) : Aftermath pool (left (Pool.unpin page dirty pool))
  | flush (page : PageId) : Aftermath pool (left (Pool.flush page pool))
  | flushAll : Aftermath pool (left (Pool.flushAll pool))
  | delete (page : PageId) : Aftermath pool (left (Pool.delete page pool))
  | forgetStats : Aftermath pool pool.forgetStats

theorem Aftermath.discard {β : Type} {action : Action σ α} {value : α → β}
    (aftermath : Aftermath pool (left (action pool))) :
    Aftermath pool (left ((action >>= fun answer => pure (value answer)) pool)) := by
  rw [left_discard]
  exact aftermath

theorem Call.aftermath (call : Call) (pool : Pool σ) : Aftermath pool (left (call.run pool)) := by
  cases call with
  | new => exact Aftermath.new.discard
  | fetch page => exact (Aftermath.fetch page).discard
  | unpin page dirty => exact (Aftermath.unpin page dirty).discard
  | flush page => exact .flush page
  | flushAll => exact .flushAll
  | delete page => exact (Aftermath.delete page).discard
  | newGuard =>
    have made : Aftermath pool (left ((Guard.new : Action σ Guard) pool)) := Aftermath.new.discard
    exact made.discard
  | fetchGuard page access =>
    have fetched : Aftermath pool (left (Guard.fetch page access pool)) := (Aftermath.fetch page).discard
    exact fetched.discard
  | release guard =>
    have released : Aftermath pool (left (guard.release pool)) := by
      unfold Guard.release
      cases guard.lease with
      | none => exact .nothing
      | some lease => exact (Aftermath.unpin lease.page lease.dirty).discard
    exact released.discard
  | forgetStats => exact .forgetStats

theorem Bookkept.flushEach_left {holds : Pool σ → Prop}
    (step : ∀ {pool : Pool σ} {page : PageId}, Flushed pool page (Pool.flush page pool) → holds pool →
      holds (left (Pool.flush page pool))) (kept : Bookkept [] pool) (before : holds pool) (pages : List PageId) :
    holds (left (pages.forM Pool.flush pool)) := by
  induction pages generalizing pool with
  | nil => exact before
  | cons page rest ih =>
    have flushed := kept.flush page
    have after := step flushed before
    change holds (left ((Pool.flush page >>= fun _ => rest.forM Pool.flush) pool))
    generalize run : Pool.flush page pool = result at flushed after
    have orderly := flushed.orderly kept
    cases result with
    | ok value later =>
      rw [bind_ok run]
      cases orderly with
      | ok kept_later stays => exact ih kept_later after
    | error failure later =>
      rw [bind_error run]
      exact after

/-- The pools that any callers can bring about, over a store that does as it likes, while there is room. -/
inductive Reachable : Pool σ → Prop where
  | created {size k : Nat} {store : σ} {pool : Pool σ} (made : create size k store = .ok pool) :
      Reachable pool
  | called {pool : Pool σ} (before : Reachable pool) (roomy : pool.Roomy) (call : Call) :
      Reachable (left (call.run pool))
  /-- Whoever has a frame may change the bytes in it and mark it. -/
  | rewritten {pool : Pool σ} {id : FrameId} {frame : Frame} (before : Reachable pool)
      (frame_at : pool.frames[id.index]? = some frame) (bytes : Page) (dirty : Bool) :
      Reachable (pool.place id { frame with page := bytes, dirty })
  /-- The store and its worker may change between calls. -/
  | disturbed {pool : Pool σ} (before : Reachable pool) (disk : Worker σ) : Reachable { pool with disk }

theorem create_eq {size k : Nat} {store : σ} (made : create size k store = .ok pool) :
    ∃ next replacer, BackingStore.bound store = .ok next ∧ LruK.create size k = .ok replacer ∧
      pool = {
        frames := .replicate size Frame.empty
        residents := ∅
        free := (List.range size).map FrameId.mk
        next
        replacer
        disk := ⟨store, true⟩
        stats := {} } := by
  unfold create at made
  split at made
  · cases made
  · cases bound : BackingStore.bound store with
    | error failure =>
      rw [bound] at made
      cases made
    | ok next =>
      cases tracking : LruK.create size k with
      | error failure =>
        rw [bound, tracking] at made
        cases made
      | ok replacer =>
        rw [bound, tracking] at made
        cases made
        exact ⟨next, replacer, rfl, rfl, rfl⟩

theorem create_bookkept {size k : Nat} {store : σ} (made : create size k store = .ok pool) :
    Bookkept [] pool := by
  obtain ⟨next, replacer, -, tracking, rfl⟩ := create_eq made
  obtain ⟨counted, frameCount, untracked⟩ := LruK.create_counted tracking
  have listed : ∀ i < size, (⟨i⟩ : FrameId) ∈ (List.range size).map FrameId.mk := fun i small =>
    List.mem_map.mpr ⟨i, List.mem_range.mpr small, rfl⟩
  exact {
    idle_nodup := List.nodup_range.map fun a b same => congrArg FrameId.index same
    idle := fun {id} member => by
      obtain ⟨i, small, rfl⟩ := List.mem_map.mp member
      refine ⟨Frame.empty, ?_, rfl, rfl, untracked _⟩
      simpa [Array.getElem?_replicate] using List.mem_range.mp small
    seat := fun resident => by simp at resident
    numbered := fun resident => by simp at resident
    covered := fun i small => .inl (listed i (by simpa using small))
    frameCount_eq := by simpa using frameCount
    counted := counted }

theorem pinsOf_created {size k : Nat} {store : σ} (made : create size k store = .ok pool) (page : PageId) :
    pool.pinsOf page = 0 := by
  obtain ⟨next, replacer, -, -, rfl⟩ := create_eq made
  exact pinsOf_absent Std.TreeMap.getElem?_emptyc

theorem Reachable.bookkept (reached : pool.Reachable) : Bookkept [] pool := by
  induction reached with
  | created made => exact create_bookkept made
  | @called before_call before roomy call ih =>
    have orderly := ih.call call
    generalize call.run before_call = result at orderly
    cases orderly with
    | ok kept => exact kept
    | error kept => exact kept
    | violation cramped => exact absurd roomy cramped
  | rewritten before frame_at bytes dirty ih => exact ih.retouch frame_at rfl rfl
  | disturbed before disk ih => exact ih.of_same rfl rfl rfl rfl (UInt32.le_refl _)

/-! ### The balance -/

/-- The books of a pool, each line checked against the others. -/
structure Balanced (pool : Pool σ) : Prop where
  free_nodup : pool.free.Nodup
  free_lt : ∀ id ∈ pool.free, id.index < pool.size
  /-- A frame on the free list is empty; any other is the frame of exactly one page. -/
  free_or_seat : ∀ id : FrameId, id.index < pool.size →
    (id ∈ pool.free ∧ (∃ frame, pool.Idle id frame) ∧ ∀ page : PageId, pool.residents[page]? ≠ some id) ∨
    (id ∉ pool.free ∧ ∃ page frame history, pool.Seat page id frame history ∧
      ∀ other : PageId, pool.residents[other]? = some id → other = page)
  room : pool.freeCount + pool.residentCount = pool.size
  tracked_iff : ∀ id : FrameId,
    pool.replacer.histories[id]?.isSome ↔ ∃ page : PageId, pool.residents[page]? = some id
  evictable_iff : ∀ {page : PageId} {id : FrameId}, pool.residents[page]? = some id →
    (pool.replacer.allows id = true ↔ pool.pinsOf page = 0)
  candidates : pool.candidateCount = pool.residents.keys.countP fun page => pool.pinsOf page = 0
  numbered : ∀ {page : PageId} {id : FrameId}, pool.residents[page]? = some id → page.number < pool.next

omit [BackingStore σ] in
/-- Every frame is listed once, as free or as that of a page. -/
theorem Bookkept.frames_perm (kept : Bookkept [] pool) :
    (pool.free ++ pool.residents.toList.map (·.2)).Perm
      ((List.range pool.frames.size).map FrameId.mk) := by
  have taken : ∀ {id : FrameId}, id ∈ pool.residents.toList.map (·.2) →
      ∃ page : PageId, pool.residents[page]? = some id := by
    intro id member
    obtain ⟨⟨page, found⟩, listed, rfl⟩ := List.mem_map.mp member
    exact ⟨page, Std.TreeMap.mem_toList_iff_getElem?_eq_some.mp listed⟩
  have pages : pool.residents.toList.Nodup := by
    have keys := pool.residents.nodup_keys
    rw [← Std.TreeMap.map_fst_toList_eq_keys] at keys
    exact keys.of_map
  have seats : (pool.residents.toList.map (·.2)).Nodup := by
    refine pages.map_on fun first one second two same => ?_
    obtain ⟨_, _, seat⟩ := kept.seat (Std.TreeMap.mem_toList_iff_getElem?_eq_some.mp one)
    obtain ⟨_, _, other⟩ := kept.seat (Std.TreeMap.mem_toList_iff_getElem?_eq_some.mp two)
    exact Prod.ext ((same ▸ other).page_unique seat) same
  have apart : pool.free.Disjoint (pool.residents.toList.map (·.2)) := by
    intro id free member
    obtain ⟨_, idle⟩ := kept.idle free
    obtain ⟨_, resident⟩ := taken member
    obtain ⟨_, _, seat⟩ := kept.seat resident
    exact seat.not_idle idle
  have all : ((List.range pool.frames.size).map FrameId.mk).Nodup :=
    List.nodup_range.map fun a b same => congrArg FrameId.index same
  -- Neither list has a frame twice, so it is enough that they have the same members.
  refine (List.perm_ext_iff_of_nodup (kept.idle_nodup.append seats apart) all).mpr fun id => ?_
  constructor
  · intro member
    have small : id.index < pool.frames.size := by
      rcases List.mem_append.mp member with free | seated
      · obtain ⟨_, idle⟩ := kept.idle free
        exact idle.index_lt
      · obtain ⟨_, resident⟩ := taken seated
        obtain ⟨_, _, seat⟩ := kept.seat resident
        exact seat.index_lt
    exact List.mem_map.mpr ⟨id.index, List.mem_range.mpr small, rfl⟩
  · intro member
    obtain ⟨i, small, rfl⟩ := List.mem_map.mp member
    rcases kept.covered i (List.mem_range.mp small) with free | ⟨page, resident⟩
    · exact List.mem_append_left _ free
    · exact List.mem_append_right _ (List.mem_map.mpr
        ⟨(page, ⟨i⟩), Std.TreeMap.mem_toList_iff_getElem?_eq_some.mpr resident, rfl⟩)

omit [BackingStore σ] in
/-- The candidates are the pages that nobody pins. -/
theorem Bookkept.candidates_eq (kept : Bookkept [] pool) :
    pool.replacer.candidates = pool.residents.keys.countP fun page => pool.pinsOf page = 0 := by
  have free : pool.free.countP pool.replacer.allows = 0 := by
    refine List.countP_eq_zero.mpr fun id member => ?_
    obtain ⟨_, idle⟩ := kept.idle member
    simp [LruK.allows, idle.untracked]
  have seats : pool.residents.toList.countP (fun entry => pool.replacer.allows entry.2) =
      pool.residents.toList.countP fun entry => pool.pinsOf entry.1 = 0 := by
    refine List.countP_congr fun entry member => ?_
    obtain ⟨_, _, seat⟩ := kept.seat (Std.TreeMap.mem_toList_iff_getElem?_eq_some.mp member)
    rw [seat.allows, seat.pinsOf]
  calc pool.replacer.candidates
      = ((List.range pool.frames.size).map FrameId.mk).countP pool.replacer.allows := by
        rw [kept.counted.candidates_eq, kept.frameCount_eq, List.countP_map]
        rfl
    _ = (pool.free ++ pool.residents.toList.map (·.2)).countP pool.replacer.allows :=
        (kept.frames_perm.countP_eq _).symm
    _ = pool.residents.toList.countP fun entry => pool.replacer.allows entry.2 := by
        rw [List.countP_append, free, Nat.zero_add, List.countP_map]
        rfl
    _ = pool.residents.keys.countP fun page => pool.pinsOf page = 0 := by
        rw [seats, ← Std.TreeMap.map_fst_toList_eq_keys, List.countP_map]
        rfl

omit [BackingStore σ] in
theorem Bookkept.balanced (kept : Bookkept [] pool) : pool.Balanced where
  free_nodup := kept.idle_nodup
  free_lt id member := by
    obtain ⟨frame, idle⟩ := kept.idle member
    exact idle.index_lt
  free_or_seat id small := by
    by_cases member : id ∈ pool.free
    · obtain ⟨frame, idle⟩ := kept.idle member
      refine .inl ⟨member, ⟨frame, idle⟩, fun page resident => ?_⟩
      obtain ⟨_, _, seat⟩ := kept.seat resident
      exact seat.not_idle idle
    · rcases kept.covered id.index small with free | ⟨page, resident⟩
      · exact absurd free member
      · obtain ⟨frame, history, seat⟩ := kept.seat resident
        refine .inr ⟨member, page, frame, history, seat, fun other taken => ?_⟩
        obtain ⟨_, _, found⟩ := kept.seat taken
        exact seat.page_unique found
  room := by
    have count := kept.frames_perm.length_eq
    simpa [freeCount, residentCount, size] using count
  tracked_iff id := by
    constructor
    · intro tracked
      obtain ⟨history, tracked⟩ := Option.isSome_iff_exists.mp tracked
      have small := kept.counted.tracked_lt tracked
      rw [kept.frameCount_eq] at small
      rcases kept.covered id.index small with member | resident
      · obtain ⟨frame, idle⟩ := kept.idle member
        rw [idle.untracked] at tracked
        cases tracked
      · exact resident
    · rintro ⟨page, resident⟩
      obtain ⟨_, _, seat⟩ := kept.seat resident
      rw [seat.tracked]
      rfl
  evictable_iff resident := by
    obtain ⟨frame, history, seat⟩ := kept.seat resident
    rw [seat.allows, seat.pinsOf, decide_eq_true_eq]
  candidates := kept.candidates_eq
  numbered := kept.numbered

/-- A call ran to an answer: it met no violation, and an error that it answers with is not of the replacer,
unless the store says such things itself. No pinned page left its frame. -/
structure Harmless (pool : Pool σ) (result : Result σ α) : Prop where
  answered : ∀ violation later, result ≠ .error (.violation violation) later
  cause : ∀ error later, result = .error (.error error) later →
    error.ofReplacer = true → error.OfStore σ
  stays : Stays pool (left result)

theorem Orderly.harmless {result : Result σ α} (orderly : Orderly pool result) (roomy : pool.Roomy) :
    Harmless pool result := by
  cases orderly with
  | ok kept stays => exact ⟨fun _ _ => nofun, fun _ _ => nofun, stays⟩
  | error kept stays cause =>
    refine ⟨fun _ _ => nofun, fun error later same => ?_, stays⟩
    cases same
    exact cause
  | violation cramped => exact absurd roomy cramped

/-- Whatever was asked of a pool, its books balance, and while there is room it answers every call. -/
theorem Reachable.balanced_and_harmless (reached : pool.Reachable) :
    pool.Balanced ∧ (pool.Roomy → ∀ call : Call, Harmless pool (call.run pool)) :=
  ⟨reached.bookkept.balanced, fun roomy call => (reached.bookkept.call call).harmless roomy⟩

/-- A page is made in a pool of one frame. -/
theorem balanced_and_harmless_one_frame :
    ∃ pool : Pool RamStore, create 1 2 RamStore.empty = .ok pool ∧
      (left (Call.new.run pool)).Balanced ∧ Harmless pool (Call.new.run pool) := by
  obtain ⟨pool, made⟩ : ∃ pool : Pool RamStore, create 1 2 RamStore.empty = .ok pool := ⟨_, rfl⟩
  have roomy : pool.Roomy := by
    obtain ⟨next, replacer, bound, -, rfl⟩ := create_eq made
    cases bound
    exact ⟨show (UInt32.ofNat 0).toNat + 1 < wordBound by decide,
      fun page => by rw [pinsOf_created made]; decide⟩
  have created : pool.Reachable := .created made
  exact ⟨pool, made, (created.called roomy .new).balanced_and_harmless.1,
    created.balanced_and_harmless.2 roomy .new⟩

end Pool

end PagedIndex
