import Mathlib
import PagedIndex.Proofs.Pool.AccessLog
import PagedIndex.Proofs.Pool.Accesses

/-!
# Replacement

The replacer knows frames and only their last accesses; the log of a pool knows pages and everything. They agree on
which page has to go: after any run, the page that makes room for another is the one that LRU-K gives up by the log.
-/

namespace PagedIndex.Pool

open AccessLog (total accesses first latest Few LeastRecent)

variable {σ α : Type} {pool later : Pool σ} {log : AccessLog} {k : Nat} {page other : PageId} {id : FrameId}
  {frame : Frame} {history : AccessHistory} {accessed : Option PageId}

/-! ### The log that a pool goes by -/

/-- What a pool remembers is what its log ends in: of every page the last `k` accesses. -/
structure Follows (k : Nat) (log : AccessLog) (pool : Pool σ) : Prop where
  kept : Bookkept [] pool
  positive : 0 < k
  depth : pool.replacer.k = k
  clock : pool.replacer.clock = total log
  times : ∀ page, pool.timesOf page = ((accesses log page).take k).reverse
  seen : ∀ page, pool.contains page = true → accesses log page ≠ []

theorem Follows.of_same (follows : Follows k log pool) (kept : Bookkept [] later)
    (residents : later.residents = pool.residents) (replacer : later.replacer = pool.replacer) :
    Follows k log later where
  kept := kept
  positive := follows.positive
  depth := replacer ▸ follows.depth
  clock := replacer ▸ follows.clock
  times page := by rw [timesOf, residents, replacer]; exact follows.times page
  seen page there := follows.seen page (by rw [contains, ← residents]; exact there)

theorem Follows.noted (follows : Follows k log pool) (noted : Noted pool accessed later)
    (kept : Bookkept [] later) : Follows k (⟨accessed, later.contains⟩ :: log) later where
  kept := kept
  positive := follows.positive
  depth := noted.k.trans follows.depth
  clock := by
    rw [noted.clock, follows.clock, total, total, List.countP_cons]
    cases accessed <;> rfl
  times page := by
    rw [accesses]
    dsimp only
    by_cases there : later.contains page = true
    · rw [if_pos there]
      split
      · rename_i here
        obtain ⟨-, times⟩ := noted.access page here
        rw [times, follows.depth, follows.clock, follows.times, recorded_take follows.positive]
      · rename_i elsewhere
        obtain ⟨-, times⟩ := noted.stays page there elsewhere
        rw [times, follows.times]
    · rw [if_neg there, timesOf_absent (absent_iff.mp (by simpa using there)), List.take_nil, List.reverse_nil]
  seen page there := by
    rw [accesses, if_pos there]
    dsimp only
    split
    · exact List.cons_ne_nil _ _
    · rename_i elsewhere
      exact follows.seen page (noted.stays page there elsewhere).1

variable [BackingStore σ]

/-- Pools that callers have worked with, over a store that does as it likes, and their logs. Pages are given up
by their last `k` accesses. -/
inductive Logged (k : Nat) : AccessLog → Pool σ → Prop where
  | created {size : Nat} {store : σ} {pool : Pool σ} (made : create size k store = .ok pool) : Logged k [] pool
  | called {log : AccessLog} {pool later : Pool σ} {accessed : Option PageId} (before : Logged k log pool)
      (call : Call) (done : call.accessing pool = .ok accessed later) :
      Logged k (⟨accessed, later.contains⟩ :: log) later
  | failed {log : AccessLog} {pool later : Pool σ} {error : Error} (before : Logged k log pool) (call : Call)
      (refused : call.accessing pool = .error (.error error) later) :
      Logged k (⟨none, later.contains⟩ :: log) later
  /-- Whoever has a frame may change the bytes in it and mark it. -/
  | rewritten {log : AccessLog} {pool : Pool σ} {id : FrameId} {frame : Frame} (before : Logged k log pool)
      (frame_at : pool.frames[id.index]? = some frame) (bytes : Page) (dirty : Bool) :
      Logged k log (pool.place id { frame with page := bytes, dirty })
  /-- The store and its worker may change between calls. -/
  | disturbed {log : AccessLog} {pool : Pool σ} (before : Logged k log pool) (disk : Worker σ) :
      Logged k log { pool with disk }

theorem create_follows {size : Nat} {store : σ} (made : create size k store = .ok pool) : Follows k [] pool := by
  have kept := create_bookkept made
  obtain ⟨next, replacer, -, tracking, rfl⟩ := create_eq made
  unfold LruK.create at tracking
  split at tracking
  · cases tracking
  · rename_i positive
    cases tracking
    refine ⟨kept, Nat.pos_of_ne_zero positive, rfl, rfl, fun page => ?_, fun page there => ?_⟩
    · rw [timesOf, Std.TreeMap.getElem?_emptyc, accesses, List.take_nil, List.reverse_nil]
      rfl
    · obtain ⟨id, resident⟩ := contains_iff.mp there
      cases Std.TreeMap.getElem?_emptyc.symm.trans resident

/-- Whatever was asked of a pool, it remembers what its log ends in. -/
theorem Logged.follows (logged : Logged k log pool) : Follows k log pool := by
  induction logged with
  | created made => exact create_follows made
  | @called log pool later accessed before call done ih =>
    have orderly := ih.kept.accessing_orderly call
    have notes := ih.kept.call_notes call
    rw [done] at orderly notes
    cases orderly with
    | ok kept stays =>
      cases notes with
      | ok noted => exact ih.noted noted kept
  | @failed log pool later error before call refused ih =>
    have orderly := ih.kept.accessing_orderly call
    have notes := ih.kept.call_notes call
    rw [refused] at orderly notes
    cases orderly with
    | error kept stays =>
      cases notes with
      | error noted => exact ih.noted noted kept
  | rewritten before frame_at bytes dirty ih => exact ih.of_same (ih.kept.retouch frame_at rfl rfl) rfl rfl
  | disturbed before disk ih =>
    exact ih.of_same (ih.kept.of_same rfl rfl rfl rfl (UInt32.le_refl _)) rfl rfl

/-! ### The victim -/

omit [BackingStore σ] in
/-- A page that is in the pool and that nobody pins. -/
def Candidate (pool : Pool σ) (page : PageId) : Prop := pool.contains page = true ∧ pool.pinsOf page = 0

section Victim

omit [BackingStore σ]

theorem Bookkept.candidate_seat (kept : Bookkept [] pool) (candidate : pool.Candidate page) :
    ∃ id frame history, pool.Seat page id frame history ∧ history.evictable = true := by
  obtain ⟨id, resident⟩ := contains_iff.mp candidate.1
  obtain ⟨frame, history, seat⟩ := kept.seat resident
  refine ⟨id, frame, history, seat, ?_⟩
  rw [seat.evictable, ← seat.pinsOf, candidate.2]
  rfl

theorem Follows.accesses_eq (follows : Follows k log pool) (seat : pool.Seat page id frame history) :
    history.accesses = ((accesses log page).take k).reverse := by
  rw [← follows.times, timesOf_resident seat.resident, LruK.times_of_tracked seat.tracked]

theorem Follows.remembers (follows : Follows k log pool) (seat : pool.Seat page id frame history) :
    history = ⟨((accesses log page).take k).reverse, history.evictable⟩ := by
  rw [← follows.accesses_eq seat]

theorem Follows.isWarm_iff (follows : Follows k log pool) (seat : pool.Seat page id frame history) :
    history.isWarm k = true ↔ ¬ Few k log page := by
  rw [follows.remembers seat, AccessHistory.isWarm_remembered, Few, not_lt]

theorem Follows.oldest_few (follows : Follows k log pool) (seat : pool.Seat page id frame history)
    (few : Few k log page) : history.oldest = first log page := by
  rw [follows.remembers seat, AccessHistory.oldest_few few, first]

theorem Follows.oldest_many (follows : Follows k log pool) (seat : pool.Seat page id frame history)
    (many : ¬ Few k log page) : history.oldest = latest k log page := by
  rw [follows.remembers seat, AccessHistory.oldest_many follows.positive (not_lt.mp many), latest]

theorem Follows.oldest_mem (follows : Follows k log pool) (seat : pool.Seat page id frame history) :
    history.oldest ∈ accesses log page := by
  have some_access := follows.seen page (contains_iff.mpr ⟨id, seat.resident⟩)
  have remembered : history.accesses ≠ [] := by
    rw [follows.accesses_eq seat]
    simp [some_access, Nat.ne_of_gt follows.positive]
  obtain ⟨time, rest, times⟩ := List.exists_cons_of_ne_nil remembered
  have member : time ∈ ((accesses log page).take k).reverse := by
    rw [← follows.accesses_eq seat, times]
    exact List.mem_cons_self
  rw [AccessHistory.oldest, times]
  exact List.mem_of_mem_take (List.mem_reverse.mp member)

/-- The victim of the replacer is the page that LRU-K gives up by the log. -/
theorem Follows.victim_leastRecent (follows : Follows k log pool) (chosen : pool.replacer.victim = some id)
    (seat : pool.Seat page id frame history) (unpinned : frame.pins = 0) :
    LeastRecent k log pool.Candidate page := by
  have least : ∀ {other : PageId}, pool.Candidate other → other ≠ page → ∃ there bare known,
      pool.Seat other there bare known ∧ (history.isWarm k = true → known.isWarm k = true) ∧
        (history.isWarm k = known.isWarm k → history.oldest < known.oldest) := by
    intro other candidate differ
    obtain ⟨there, bare, known, seated, evictable⟩ := follows.kept.candidate_seat candidate
    have le := LruK.victim_le chosen seat.tracked seated.tracked evictable
    rw [follows.depth] at le
    obtain ⟨warm, oldest⟩ := LruK.rank_le le
    -- An access is one to a single page, so there are no ties.
    refine ⟨there, bare, known, seated, warm, fun same => lt_of_le_of_ne (oldest same) fun tie => differ ?_⟩
    exact AccessLog.eq_of_mem (tie ▸ follows.oldest_mem seated) (follows.oldest_mem seat)
  refine ⟨⟨contains_iff.mpr ⟨id, seat.resident⟩, seat.pinsOf.trans unpinned⟩, ?_, ?_⟩
  · rintro ⟨cold, candidate, few_cold⟩
    have few : Few k log page := by
      by_contra many
      by_cases same : cold = page
      · exact many (same ▸ few_cold)
      · obtain ⟨_, _, _, seated, warm, -⟩ := least candidate same
        exact (follows.isWarm_iff seated).mp (warm ((follows.isWarm_iff seat).mpr many)) few_cold
    refine ⟨few, fun other candidate few_other differ => ?_⟩
    obtain ⟨_, _, known, seated, -, older⟩ := least candidate differ
    have cold_page : history.isWarm k = false := by
      simpa using mt (follows.isWarm_iff seat).mp (not_not_intro few)
    have cold_other : known.isWarm k = false := by
      simpa using mt (follows.isWarm_iff seated).mp (not_not_intro few_other)
    have before := older (cold_page.trans cold_other.symm)
    rwa [follows.oldest_few seat few, follows.oldest_few seated few_other] at before
  · intro warm other candidate differ
    have many := warm page ⟨contains_iff.mpr ⟨id, seat.resident⟩, seat.pinsOf.trans unpinned⟩
    have many_other := warm other candidate
    obtain ⟨_, _, known, seated, -, older⟩ := least candidate differ
    have before := older (((follows.isWarm_iff seat).mpr many).trans ((follows.isWarm_iff seated).mpr many_other).symm)
    rwa [follows.oldest_many seat many, follows.oldest_many seated many_other] at before

end Victim

/-! ### Calls that need a frame -/

section Frames

omit [BackingStore σ]

/-- A call that makes a page, or that asks for one that there is but that is not in the pool. -/
inductive Call.NeedsFrame (pool : Pool σ) : Call → Prop where
  | new : NeedsFrame pool .new
  | newGuard : NeedsFrame pool .newGuard
  | fetch {page : PageId} (known : page.isValid = true ∧ page.number < pool.next)
      (absent : pool.contains page = false) : NeedsFrame pool (.fetch page)
  | fetchGuard {page : PageId} {access : Access} (known : page.isValid = true ∧ page.number < pool.next)
      (absent : pool.contains page = false) : NeedsFrame pool (.fetchGuard page access)

/-- The frame to use next, the free ones left after it, and the page that goes for it: the first free frame if
there is one, and else that of the page that LRU-K gives up. -/
inductive Due (k : Nat) (log : AccessLog) (pool : Pool σ) : FrameId → List FrameId → Option PageId → Prop where
  | free {id : FrameId} {rest : List FrameId} (free : pool.free = id :: rest) : Due k log pool id rest none
  | displaced {victim : PageId} {id : FrameId} (full : pool.free = [])
      (least : LeastRecent k log pool.Candidate victim)
      (unique : ∀ other, LeastRecent k log pool.Candidate other → other = victim)
      (resident : pool.residents[victim]? = some id) : Due k log pool id [] (some victim)

/-- The page lost is not in the pool any more, and each of the others is where it was. -/
structure Spares (pool : Pool σ) (lost : Option PageId) (later : Pool σ) : Prop where
  gone : ∀ page, lost = some page → later.contains page = false
  stays : ∀ page, pool.contains page = true → lost ≠ some page → later.residents[page]? = pool.residents[page]?

/-- A call used a frame. The page that it answers with is in there; a call that failed to read one gave the frame
back, as the last of the free ones. -/
inductive Took (pool : Pool σ) (id : FrameId) (rest : List FrameId) (lost : Option PageId)
    (accessed : α → Option PageId) : Result σ α → Prop where
  | ok {value : α} {page : PageId} {later : Pool σ} (answer : accessed value = some page)
      (came : pool.contains page = false) (resident : later.residents[page]? = some id) (free : later.free = rest)
      (spares : Spares pool lost later) : Took pool id rest lost accessed (.ok value later)
  | error {error : Error} {later : Pool σ} (free : later.free = rest ++ [id]) (spares : Spares pool lost later) :
      Took pool id rest lost accessed (.error (.error error) later)
  | violation {violation : Violation} {later : Pool σ} (last : ¬ pool.next.toNat + 1 < wordBound)
      (spares : Spares pool lost later) : Took pool id rest lost accessed (.error (.violation violation) later)

end Frames

/-- All that a call that needs a frame can come to, by the log. -/
inductive Replaces (k : Nat) (log : AccessLog) (pool : Pool σ) (accessed : α → Option PageId) :
    Result σ α → Prop where
  | took {id : FrameId} {rest : List FrameId} {lost : Option PageId} {result : Result σ α}
      (due : Due k log pool id rest lost) (took : Took pool id rest lost accessed result) :
      Replaces k log pool accessed result
  /-- The page to go could not be written to the store, so it stays. -/
  | unsaved {id : FrameId} {victim : PageId} {frame : Frame} {error : Error} {disk : Worker σ} {later : Pool σ}
      (due : Due k log pool id [] (some victim)) (frame_of : pool.frameOf? victim = some frame)
      (dirty : frame.dirty = true)
      (failed : pool.disk.perform (.write victim frame.page) = (.error error, disk))
      (residents : later.residents = pool.residents) (free : later.free = []) :
      Replaces k log pool accessed (.error (.error error) later)
  | crowded {later : Pool σ} (full : pool.free = []) (nobody : ∀ page, ¬ pool.Candidate page)
      (residents : later.residents = pool.residents) (free : later.free = []) :
      Replaces k log pool accessed (.error (.error .noFreeFrames) later)

omit [BackingStore σ] in
theorem Follows.due (follows : Follows k log pool) (full : pool.free = []) (chosen : pool.replacer.victim = some id)
    (seat : pool.Seat page id frame history) (unpinned : frame.pins = 0) : Due k log pool id [] (some page) := by
  have least := follows.victim_leastRecent chosen seat unpinned
  exact .displaced full least (fun other also => also.unique least) seat.resident

omit [BackingStore σ] in
theorem spares_vacate (residents : later.residents = pool.residents.erase page) : Spares pool (some page) later where
  gone other same := by
    cases same
    rw [absent_iff, residents]
    simp
  stays other _ differ := by
    have apart : page ≠ other := fun same => differ (congrArg some same)
    rw [residents]
    simp [Std.TreeMap.getElem?_erase, apart]

omit [BackingStore σ] in
theorem spares_same (residents : later.residents = pool.residents) : Spares pool none later :=
  ⟨fun _ => nofun, fun _ _ _ => by rw [residents]⟩

omit [BackingStore σ] in
theorem Spares.install {lost : Option PageId} (spares : Spares pool lost later)
    (absent : pool.residents[page]? = none) (seated : lost ≠ some page) (id : FrameId) (frame : Frame) :
    Spares pool lost (later.install page id frame) where
  gone other same := by
    have apart : page ≠ other := fun here => seated (here ▸ same)
    rw [absent_iff, residents_install, if_neg apart]
    exact absent_iff.mp (spares.gone other same)
  stays other there differ := by
    have apart : page ≠ other := by
      rintro rfl
      rw [absent_iff.mpr absent] at there
      cases there
    rw [residents_install, if_neg apart]
    exact spares.stays other there differ

theorem Claimed.due (claimed : Claimed pool (.ok id later)) (follows : Follows k log pool) :
    ∃ lost, Due k log pool id later.free lost ∧ Spares pool lost later ∧
      ∀ page, lost = some page → pool.contains page = true := by
  cases claimed with
  | free free => exact ⟨none, .free free, spares_same rfl, fun _ => nofun⟩
  | @clean page id frame history full chosen seat unpinned clean =>
    have due := follows.due full chosen seat unpinned
    refine ⟨some page, ?_, spares_vacate rfl, fun other same => ?_⟩
    · exact full.symm ▸ due
    · cases same
      exact contains_iff.mpr ⟨id, seat.resident⟩
  | @saved page id frame history data disk full chosen seat unpinned dirty served =>
    have due := follows.due full chosen seat unpinned
    refine ⟨some page, ?_, spares_vacate rfl, fun other same => ?_⟩
    · exact full.symm ▸ due
    · cases same
      exact contains_iff.mpr ⟨id, seat.resident⟩

theorem Claimed.replaces {failure : Failure} {accessed : α → Option PageId}
    (claimed : Claimed pool (.error failure later)) (follows : Follows k log pool) :
    Replaces k log pool accessed (.error failure later) := by
  cases claimed with
  | crowded full fixed =>
    refine .crowded full (fun page candidate => ?_) rfl full
    obtain ⟨id, frame, history, seat, evictable⟩ := follows.kept.candidate_seat candidate
    have some_left := LruK.candidates_pos follows.kept.counted
      ((LruK.allows_of_tracked seat.tracked).trans evictable)
    have none_left := LruK.candidates_of_victim_none follows.kept.counted fixed
    omega
  | unsaved full chosen seat unpinned dirty failed =>
    exact .unsaved (follows.due full chosen seat unpinned) seat.frameOf? dirty failed rfl full

theorem Claimed.took (accessed : α → Option PageId) {value : α} {last : Pool σ}
    (claimed : Claimed pool (.ok id later)) (follows : Follows k log pool) (absent : pool.residents[page]? = none)
    (frame : Frame) (answer : accessed value = some page)
    (residents : last.residents = (later.install page id frame).residents) (free : last.free = later.free) :
    Replaces k log pool accessed (.ok value last) := by
  obtain ⟨lost, due, spares, there⟩ := claimed.due follows
  have elsewhere : lost ≠ some page := fun same => by
    have here := there page same
    rw [absent_iff.mpr absent] at here
    cases here
  obtain ⟨gone, stays⟩ := spares.install absent elsewhere id frame
  refine .took due (.ok answer (absent_iff.mpr absent) ?_ free ⟨fun other same => ?_, fun other here differ => ?_⟩)
  · rw [residents, residents_install, if_pos rfl]
  · rw [contains, residents]
    exact gone other same
  · rw [residents]
    exact stays other here differ

theorem Made.replaces {result : Result σ (PageId × FrameId)} (made : Made pool result)
    (follows : Follows k log pool) : Replaces k log pool (fun answer => some answer.1) result := by
  cases made with
  | refused claimed => exact claimed.replaces follows
  | exhausted claimed last =>
    obtain ⟨lost, due, spares, -⟩ := claimed.due follows
    exact .took due (.violation last spares)
  | @made id frame later claimed idle room =>
    exact claimed.took _ follows follows.kept.next_absent frame rfl rfl rfl

theorem Replaces.of_missed {accessed : α → Option PageId} {result : Result σ α}
    (replaces : Replaces k log pool.missed accessed result) : Replaces k log pool accessed result := by
  have due_of : ∀ {id rest lost}, Due k log pool.missed id rest lost → Due k log pool id rest lost := by
    intro id rest lost due
    cases due with
    | free free => exact .free free
    | displaced full least unique resident => exact .displaced full least unique resident
  have spares_of : ∀ {lost later}, Spares pool.missed lost later → Spares pool lost later := fun spares =>
    ⟨spares.gone, spares.stays⟩
  cases replaces with
  | took due took =>
    refine .took (due_of due) ?_
    cases took with
    | ok answer came resident free spares => exact .ok answer came resident free (spares_of spares)
    | error free spares => exact .error free (spares_of spares)
    | violation last spares => exact .violation last (spares_of spares)
  | unsaved due frame_of dirty failed residents free =>
    exact .unsaved (due_of due) frame_of dirty failed residents free
  | crowded full nobody residents free => exact .crowded full nobody residents free

theorem Fetched.replaces {result : Result σ FrameId} (fetched : Fetched pool page result)
    (follows : Follows k log pool) (known : page.isValid = true ∧ page.number < pool.next)
    (absent : pool.contains page = false) : Replaces k log pool (fun _ => some page) result := by
  have missed : Follows k log pool.missed := follows.of_same follows.kept.missed rfl rfl
  have nowhere := absent_iff.mp absent
  cases fetched with
  | unknown unknown => exact absurd known unknown
  | hit known seat room => cases nowhere.symm.trans seat.resident
  | full seat full => cases nowhere.symm.trans seat.resident
  | refused absent claimed => exact (claimed.replaces missed).of_missed
  | unread absent claimed failed =>
    obtain ⟨lost, due, ⟨gone, stays⟩, -⟩ := claimed.due missed
    exact Replaces.of_missed (.took due (.error rfl ⟨gone, stays⟩))
  | @loaded id frame later bytes disk known absent claimed idle served =>
    have loaded : Replaces k log pool.missed (fun _ => some page)
        (.ok id (later.loaded page id frame bytes disk) : Result σ FrameId) :=
      claimed.took _ missed absent { frame with page := bytes } rfl rfl rfl
    exact loaded.of_missed

omit [BackingStore σ] in
theorem Took.discard {β : Type} {rest : List FrameId} {lost : Option PageId} {action : Action σ α} {value : α → β}
    {heard : α → Option PageId} {accessed : β → Option PageId} (took : Took pool id rest lost heard (action pool))
    (same : ∀ answer, accessed (value answer) = heard answer) :
    Took pool id rest lost accessed ((action >>= fun answer => pure (value answer)) pool) := by
  generalize run : action pool = result at took
  cases took with
  | ok answer came resident free spares =>
    rw [bind_ok run]
    exact .ok ((same _).trans answer) came resident free spares
  | error free spares =>
    rw [bind_error run]
    exact .error free spares
  | violation last spares =>
    rw [bind_error run]
    exact .violation last spares

theorem Replaces.discard {β : Type} {action : Action σ α} {value : α → β} {heard : α → Option PageId}
    {accessed : β → Option PageId} (replaces : Replaces k log pool heard (action pool))
    (same : ∀ answer, accessed (value answer) = heard answer) :
    Replaces k log pool accessed ((action >>= fun answer => pure (value answer)) pool) := by
  generalize run : action pool = result at replaces
  cases replaces with
  | took due took =>
    subst run
    exact .took due (took.discard same)
  | unsaved due frame_of dirty failed residents free =>
    rw [bind_error run]
    exact .unsaved due frame_of dirty failed residents free
  | crowded full nobody residents free =>
    rw [bind_error run]
    exact .crowded full nobody residents free

theorem Follows.replaces (follows : Follows k log pool) {call : Call} (needs : call.NeedsFrame pool) :
    Replaces k log pool (fun page => page) (call.accessing pool) := by
  have kept := follows.kept
  have fetched : ∀ {page : PageId}, page.isValid = true ∧ page.number < pool.next → pool.contains page = false →
      Replaces k log pool (fun _ => some page) (Pool.fetch page pool) := fun known absent =>
    (kept.fetch _).replaces follows known absent
  cases needs with
  | new => exact (kept.new.replaces follows).discard fun _ => rfl
  | fetch known absent => exact (fetched known absent).discard fun _ => rfl
  | newGuard =>
    have made : Replaces k log pool (fun guard => guard.lease.map (·.page)) ((Guard.new : Action σ Guard) pool) :=
      (kept.new.replaces follows).discard fun _ => rfl
    exact made.discard fun _ => rfl
  | @fetchGuard page access known absent =>
    have loaded : Replaces k log pool (fun guard => guard.lease.map (·.page)) (Guard.fetch page access pool) :=
      (fetched known absent).discard fun _ => rfl
    exact loaded.discard fun _ => rfl

/-! ### The order of free frames -/

section Queue

omit [BackingStore σ]

/-- Frames are taken from the front of the free list and come back to its end, so the first of them is the one that
has been free the longest. -/
def Queued (pool later : Pool σ) : Prop :=
  ∃ taken kept returned, pool.free = taken ++ kept ∧ later.free = kept ++ returned

theorem Queued.of_same (free : later.free = pool.free) : Queued pool later :=
  ⟨[], pool.free, [], rfl, by rw [free, List.append_nil]⟩

theorem Queued.returned (free : later.free = pool.free ++ [id]) : Queued pool later :=
  ⟨[], pool.free, [id], rfl, free⟩

end Queue

theorem Claimed.queued {result : Result σ FrameId} (claimed : Claimed pool result) :
    ∃ taken, pool.free = taken ++ (left result).free := by
  cases claimed with
  | @free id rest free => exact ⟨[id], free⟩
  | _ => exact ⟨[], rfl⟩

theorem Claimed.queued_of_free {result : Result σ FrameId} (claimed : Claimed pool result)
    (free : later.free = (left result).free) : Queued pool later := by
  obtain ⟨taken, split⟩ := claimed.queued
  exact ⟨taken, _, [], split, by rw [free, List.append_nil]⟩

theorem Made.queued {result : Result σ (PageId × FrameId)} (made : Made pool result) : Queued pool (left result) := by
  cases made with
  | refused claimed => exact claimed.queued_of_free rfl
  | exhausted claimed => exact claimed.queued_of_free rfl
  | made claimed => exact claimed.queued_of_free rfl

theorem Fetched.queued {result : Result σ FrameId} (fetched : Fetched pool page result) :
    Queued pool (left result) := by
  cases fetched with
  | unknown => exact .of_same rfl
  | hit => exact .of_same rfl
  | full => exact .of_same rfl
  | refused absent claimed => exact claimed.queued_of_free rfl
  | @unread id later error disk absent claimed failed =>
    obtain ⟨taken, split⟩ := claimed.queued
    exact ⟨taken, later.free, [id], split, rfl⟩
  | loaded known absent claimed => exact claimed.queued_of_free rfl

omit [BackingStore σ] in
theorem Unpinned.free_eq {dirty : Bool} {result : Result σ Bool} (unpinned : Unpinned pool page dirty result) :
    (left result).free = pool.free := by
  cases unpinned <;> rfl

theorem Flushed.free_eq {result : Result σ Unit} (flushed : Flushed pool page result) :
    (left result).free = pool.free := by
  cases flushed <;> rfl

omit [BackingStore σ] in
theorem Deleted.queued {result : Result σ Bool} (deleted : Deleted pool page result) : Queued pool (left result) := by
  cases deleted with
  | absent => exact .of_same rfl
  | pinned => exact .of_same rfl
  | dropped => exact .returned rfl

theorem Bookkept.queued (kept : Bookkept [] pool) (call : Call) : Queued pool (left (call.accessing pool)) := by
  have same : left (call.accessing pool) = left (call.run pool) := by rw [call.run_eq, left_discard]
  have aftermath := call.aftermath pool
  rw [same]
  generalize left (call.run pool) = later at aftermath
  cases aftermath with
  | nothing => exact .of_same rfl
  | new => exact kept.new.queued
  | fetch page => exact (kept.fetch page).queued
  | unpin page dirty => exact .of_same (kept.unpin page dirty).free_eq
  | flush page => exact .of_same (kept.flush page).free_eq
  | flushAll =>
    have stays : ∀ {later : Pool σ} {page : PageId}, Flushed later page (Pool.flush page later) →
        later.free = pool.free → (left (Pool.flush page later)).free = pool.free := fun flushed same =>
      flushed.free_eq.trans same
    exact .of_same (kept.flushEach_left stays rfl _)
  | delete page => exact (kept.delete page).queued
  | forgetStats => exact .of_same rfl

/-! ### The policy -/

/-- Whatever was asked of a pool before, a call that needs a frame takes the one that has been free the longest, and
if none is free, the one of the page that LRU-K gives up by the whole log. -/
theorem Logged.replaces_least_recent (logged : Logged k log pool) (call : Call) :
    (call.NeedsFrame pool → Replaces k log pool (fun page => page) (call.accessing pool)) ∧
      Queued pool (left (call.accessing pool)) :=
  ⟨fun needs => logged.follows.replaces needs, logged.follows.kept.queued call⟩

/-- Of two pages that were given back, the one that was made later but accessed only once goes first. -/
theorem replaces_least_recent_two_pages :
    ∃ (log : AccessLog) (pool later : Pool RamStore), Logged 2 log pool ∧ pool.free = [] ∧ pool.Candidate ⟨0⟩ ∧
      pool.Candidate ⟨1⟩ ∧ Replaces 2 log pool (fun page => page) (Call.new.accessing pool) ∧
      Call.new.accessing pool = .ok (some ⟨2⟩) later ∧ later.contains ⟨0⟩ = true ∧ later.contains ⟨1⟩ = false := by
  obtain ⟨a, b, c, d, e, f, g, h, made, first, given, second, back, again, released, third, full, both, keeps, gives⟩ :
      ∃ a b c d e f g h : Pool RamStore, create 2 2 RamStore.empty = .ok a ∧
        Call.new.accessing a = .ok (some ⟨0⟩) b ∧ (Call.unpin ⟨0⟩ false).accessing b = .ok none c ∧
        Call.new.accessing c = .ok (some ⟨1⟩) d ∧ (Call.unpin ⟨1⟩ false).accessing d = .ok none e ∧
        (Call.fetch ⟨0⟩).accessing e = .ok (some ⟨0⟩) f ∧ (Call.unpin ⟨0⟩ false).accessing f = .ok none g ∧
        Call.new.accessing g = .ok (some ⟨2⟩) h ∧ g.free = [] ∧ (g.Candidate ⟨0⟩ ∧ g.Candidate ⟨1⟩) ∧
        h.contains ⟨0⟩ = true ∧ h.contains ⟨1⟩ = false :=
    ⟨_, _, _, _, _, _, _, _, rfl, rfl, rfl, rfl, rfl, rfl, rfl, rfl, rfl, ⟨⟨rfl, rfl⟩, rfl, rfl⟩, rfl, rfl⟩
  have one := ((Logged.created made).called .new first).called (.unpin ⟨0⟩ false) given
  have two := (one.called .new second).called (.unpin ⟨1⟩ false) back
  have logged := (two.called (.fetch ⟨0⟩) again).called (.unpin ⟨0⟩ false) released
  exact ⟨_, g, h, logged, full, both.1, both.2, (logged.replaces_least_recent .new).1 .new, third, keeps, gives⟩

end PagedIndex.Pool
