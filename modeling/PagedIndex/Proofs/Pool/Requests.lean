import Mathlib
import PagedIndex.Proofs.Pool.Calls
import PagedIndex.Proofs.Pool.Flushing
import PagedIndex.Proofs.Store.Journal

/-!
# What calls ask of the store

For every call a list of requests is known beforehand: a victim that is dirty is written, a page to be flushed is
written, a page that is not in the pool is read once there is a frame for it. The call hands the list to the worker, up
to the first request that is refused, and nothing else; what it counts follows.
-/

namespace PagedIndex

/-- How often the pool did what it counts by itself, and how often pages came and went without being counted. -/
structure Tally where
  hits : Nat := 0
  misses : Nat := 0
  evictions : Nat := 0
  deletes : Nat := 0
  /-- Pages made. -/
  makings : Nat := 0
  /-- Pages that left the pool because they were deleted. -/
  drops : Nat := 0

namespace Tally

instance : Add Tally where
  add first second := {
    hits := first.hits + second.hits
    misses := first.misses + second.misses
    evictions := first.evictions + second.evictions
    deletes := first.deletes + second.deletes
    makings := first.makings + second.makings
    drops := first.drops + second.drops }

variable (first second : Tally)

@[simp] theorem add_hits : (first + second).hits = first.hits + second.hits := rfl

@[simp] theorem add_misses : (first + second).misses = first.misses + second.misses := rfl

@[simp] theorem add_evictions : (first + second).evictions = first.evictions + second.evictions := rfl

@[simp] theorem add_deletes : (first + second).deletes = first.deletes + second.deletes := rfl

@[simp] theorem add_makings : (first + second).makings = first.makings + second.makings := rfl

@[simp] theorem add_drops : (first + second).drops = first.drops + second.drops := rfl

end Tally

/-- The counters after some more of what they count. -/
def Stats.after (stats : Stats) (tally : Tally) (served : List Entry) : Stats where
  hits := stats.hits + .ofNat tally.hits
  misses := stats.misses + .ofNat tally.misses
  evictions := stats.evictions + .ofNat tally.evictions
  reads := stats.reads + .ofNat (served.countP Entry.isRead)
  writes := stats.writes + .ofNat (served.countP Entry.isWrite)
  deletes := stats.deletes + .ofNat tally.deletes

theorem Stats.after_nothing (stats : Stats) : stats.after {} [] = stats := by
  simp [Stats.after]

theorem Stats.after_after (stats : Stats) (first second : Tally) (served more : List Entry) :
    (stats.after first served).after second more = stats.after (first + second) (served ++ more) := by
  simp [Stats.after, UInt64.ofNat_add, UInt64.add_assoc]

namespace Pool

variable {σ α : Type} {pool middle later : Pool σ} {page : PageId} {id : FrameId} {frame : Frame}
  {history : AccessHistory}

/-! ### The requests of a call -/

def victim? (pool : Pool σ) : Option (PageId × Frame) := do
  let id ← pool.replacer.victim
  let frame ← pool.frames[id.index]?
  return (← frame.holds, frame)

def hasRoom (pool : Pool σ) : Bool := !pool.free.isEmpty || pool.replacer.victim.isSome

/-- Whether a page was made in this pool, or in an earlier one over the same store. -/
def knows (pool : Pool σ) (page : PageId) : Bool := page.isValid && decide (page.number < pool.next)

/-- What is asked to make room for a page. -/
def clearing (pool : Pool σ) : List Request :=
  match pool.free, pool.victim? with
  | [], some (page, frame) => if frame.dirty then [.write page frame.page] else []
  | _, _ => []

def reading (pool : Pool σ) (page : PageId) : List Request :=
  if pool.knows page && !pool.contains page && pool.hasRoom then pool.clearing ++ [.read page] else []

def writing (pool : Pool σ) (page : PageId) : List Request :=
  ((pool.frameOf? page).map fun frame => .write page frame.page).toList

def Call.requests (pool : Pool σ) : Call → List Request
  | .new | .newGuard => pool.clearing
  | .fetch page | .fetchGuard page _ => pool.reading page
  | .flush page => pool.writing page
  | .flushAll => pool.residents.keys.flatMap pool.writing
  | .unpin .. | .delete _ | .release _ | .forgetStats => []

theorem Seat.victim (seat : pool.Seat page id frame history) (chosen : pool.replacer.victim = some id) :
    pool.victim? = some (page, frame) := by
  simp [victim?, chosen, seat.frame_at, seat.holds]

theorem clearing_of_free {rest : List FrameId} (free : pool.free = id :: rest) : pool.clearing = [] := by
  simp [clearing, free]

theorem clearing_of_crowded (full : pool.free = []) (fixed : pool.replacer.victim = none) :
    pool.clearing = [] ∧ pool.hasRoom = false := by
  simp [clearing, hasRoom, victim?, full, fixed]

theorem Seat.clearing (seat : pool.Seat page id frame history) (full : pool.free = [])
    (chosen : pool.replacer.victim = some id) :
    pool.clearing = if frame.dirty then [.write page frame.page] else [] := by
  simp [Pool.clearing, full, seat.victim chosen]

theorem knows_iff : pool.knows page = true ↔ page.isValid = true ∧ page.number < pool.next := by
  simp [knows]

theorem reading_of_present (present : pool.contains page = true) : pool.reading page = [] := by
  simp [reading, present]

theorem reading_of_unknown (unknown : pool.knows page = false) : pool.reading page = [] := by
  simp [reading, unknown]

theorem reading_of_absent (known : pool.knows page = true) (absent : pool.contains page = false) :
    pool.reading page = if pool.hasRoom then pool.clearing ++ [.read page] else [] := by
  simp [reading, known, absent]

theorem Seat.writing (seat : pool.Seat page id frame history) : pool.writing page = [.write page frame.page] := by
  simp [Pool.writing, seat.frameOf?]

theorem Remarked.writing {mark : PageId → Option Bool} (marks : Remarked pool mark later) :
    later.writing = pool.writing := by
  funext page
  simp only [Pool.writing, marks page, Option.map_map]
  rfl

/-! ### Moves that are accounted for -/

variable [BackingStore σ] {requests more : List Request} {tally other : Tally} {gone left came : Option PageId}

/-- The requests of a move were handed to the worker, and the counters tell of them. At most one page is gone, and at
most one has come. -/
structure Charged (pool : Pool σ) (requests : List Request) (tally : Tally) (gone came : Option PageId)
    (later : Pool σ) : Prop where
  disk : later.disk = (pool.disk.serve requests).2
  stats : later.stats = pool.stats.after tally (pool.disk.serve requests).1
  size : later.residentCount + gone.toList.length = pool.residentCount + came.toList.length
  departure : tally.evictions + tally.drops = gone.toList.length
  /-- A page comes into the pool because it was made or read. -/
  arrival : tally.makings + (pool.disk.serve requests).1.countP Entry.isRead = came.toList.length
  leaves : ∀ page, gone = some page → pool.contains page = true
  enters : ∀ page, came = some page → pool.contains page = false
  contains : ∀ page, later.contains page = true ↔ pool.contains page = true ∧ gone ≠ some page ∨ came = some page

def Accepts (disk : Worker σ) (requests : List Request) : Bool := (disk.serve requests).1.all Entry.accepted

theorem serve_of_accepts {disk : Worker σ} (all : Accepts disk requests = true) (more : List Request) :
    disk.serve (requests ++ more) = ((disk.serve requests).1 ++ ((disk.serve requests).2.serve more).1,
      ((disk.serve requests).2.serve more).2) :=
  (Worker.serve_append requests more disk).trans (if_pos all)

/-- One move after the other. Only the second may bring a page in, and only one of them makes one leave. -/
theorem Charged.trans (first : Charged pool requests tally gone none middle)
    (all : Accepts pool.disk requests = true) (second : Charged middle more other left came later)
    (one : gone = none ∨ left = none) (enters : ∀ page, came = some page → pool.contains page = false) :
    Charged pool (requests ++ more) (tally + other) (gone.or left) came later := by
  have served := serve_of_accepts all more
  rw [← first.disk] at served
  have lost : (gone.or left).toList.length = gone.toList.length + left.toList.length := by
    rcases one with rfl | rfl <;> simp
  have size : later.residentCount + (gone.or left).toList.length = pool.residentCount + came.toList.length := by
    have before := first.size
    have after := second.size
    simp only [Option.toList_none, List.length_nil] at before
    omega
  have arrival : (tally + other).makings + (pool.disk.serve (requests ++ more)).1.countP Entry.isRead =
      came.toList.length := by
    have before := first.arrival
    have after := second.arrival
    simp only [Option.toList_none, List.length_nil] at before
    rw [served, List.countP_append, Tally.add_makings]
    omega
  have departure : (tally + other).evictions + (tally + other).drops = (gone.or left).toList.length := by
    rw [lost, ← first.departure, ← second.departure, Tally.add_evictions, Tally.add_drops]
    omega
  refine ⟨?_, ?_, size, departure, arrival, fun page away => ?_, enters, fun page => ?_⟩
  · rw [served]
    exact second.disk
  · rw [served, second.stats, first.stats, Stats.after_after]
  · rcases one with rfl | rfl
    · simpa [first.contains] using second.leaves page away
    · exact first.leaves page (by simpa using away)
  · rw [second.contains, first.contains]
    rcases one with rfl | rfl <;> simp

theorem Charged.follow (first : Charged pool requests tally gone none middle)
    (all : Accepts pool.disk requests = true) (second : Charged middle more other left none later)
    (one : gone = none ∨ left = none) :
    Charged pool (requests ++ more) (tally + other) (gone.or left) none later := by
  apply first.trans all second one
  intro page same
  cases same

/-- What is not asked for because an earlier request was refused makes no difference. -/
theorem Charged.stopped (charged : Charged pool requests tally gone came later)
    (refused : Accepts pool.disk requests = false) (more : List Request) :
    Charged pool (requests ++ more) tally gone came later := by
  have served : pool.disk.serve (requests ++ more) = pool.disk.serve requests :=
    (Worker.serve_append requests more pool.disk).trans (if_neg (by simpa [Accepts] using refused))
  obtain ⟨disk, stats, size, departure, arrival, leaves, enters, contains⟩ := charged
  rw [← served] at disk stats arrival
  exact ⟨disk, stats, size, departure, arrival, leaves, enters, contains⟩

theorem Charged.of_same (residents : later.residents = pool.residents)
    (disk : later.disk = (pool.disk.serve requests).2)
    (stats : later.stats = pool.stats.after tally (pool.disk.serve requests).1)
    (stay : tally.evictions + tally.drops = 0)
    (away : tally.makings + (pool.disk.serve requests).1.countP Entry.isRead = 0) :
    Charged pool requests tally none none later where
  disk := disk
  stats := stats
  size := by rw [residentCount, residents]; rfl
  departure := stay
  arrival := away
  leaves := nofun
  enters := nofun
  contains page := by simp [Pool.contains, residents]

theorem Charged.of_erase (residents : later.residents = pool.residents.erase page)
    (present : pool.contains page = true) (disk : later.disk = (pool.disk.serve requests).2)
    (stats : later.stats = pool.stats.after tally (pool.disk.serve requests).1)
    (one : tally.evictions + tally.drops = 1)
    (away : tally.makings + (pool.disk.serve requests).1.countP Entry.isRead = 0) :
    Charged pool requests tally (some page) none later where
  disk := disk
  stats := stats
  size := by
    have some_left : 0 < pool.residents.size := by
      rw [← Std.TreeMap.length_keys]
      exact List.length_pos_of_mem (Std.TreeMap.mem_keys.mpr present)
    have listed : pool.residents.contains page = true := present
    rw [residentCount, residents, Std.TreeMap.size_erase, if_pos listed]
    exact Nat.sub_add_cancel some_left
  departure := one
  arrival := away
  leaves := by
    rintro other ⟨⟩
    exact present
  enters := nofun
  contains other := by simp [Pool.contains, residents, and_comm]

theorem Charged.of_insert (residents : later.residents = pool.residents.insert page id)
    (absent : pool.residents[page]? = none) (disk : later.disk = (pool.disk.serve requests).2)
    (stats : later.stats = pool.stats.after tally (pool.disk.serve requests).1)
    (stay : tally.evictions + tally.drops = 0)
    (one : tally.makings + (pool.disk.serve requests).1.countP Entry.isRead = 1) :
    Charged pool requests tally none (some page) later where
  disk := disk
  stats := stats
  size := by
    have unlisted : pool.residents.contains page = false := absent_iff.mpr absent
    rw [residentCount, residents, Std.TreeMap.size_insert, if_neg (by simp [unlisted])]
    rfl
  departure := stay
  arrival := one
  leaves := nofun
  enters := by
    rintro other ⟨⟩
    exact absent_iff.mpr absent
  contains other := by simp [Pool.contains, residents, or_comm]

theorem charged_nothing (pool : Pool σ) : Charged pool [] {} none none pool :=
  .of_same rfl rfl (Stats.after_nothing _).symm rfl rfl

theorem charged_write {answer : Except Error Page} {bytes : Page}
    (performed : pool.disk.perform (.write page bytes) = (answer, later.disk))
    (residents : later.residents = pool.residents)
    (stats : later.stats = { pool.stats with writes := pool.stats.writes + .ofNat answer.isOk.toNat }) :
    Charged pool [.write page bytes] {} none none later ∧
      Accepts pool.disk [.write page bytes] = answer.isOk := by
  have served := Worker.serve_one performed
  refine ⟨.of_same residents ?_ ?_ rfl ?_, ?_⟩
  · rw [served]
  · rw [served, stats]
    cases answer.isOk <;> simp [Stats.after]
  · rw [served]
    rfl
  · rw [Accepts, served]
    exact Bool.and_true _

theorem charged_evicted (present : pool.contains page = true) (id : FrameId) :
    Charged pool [] { evictions := 1 } (some page) none (pool.evicted page id) := by
  refine .of_erase rfl present rfl ?_ rfl rfl
  simp [evicted, Stats.after, Worker.serve]

/-! ### Each operation in turn -/

theorem Claimed.charged_ok (claimed : Claimed pool (.ok id later)) :
    ∃ gone, Charged pool pool.clearing { evictions := gone.toList.length } gone none later ∧
      Accepts pool.disk pool.clearing = true ∧ pool.hasRoom = true := by
  cases claimed with
  | free free =>
    rw [clearing_of_free free]
    refine ⟨none, .of_same rfl rfl (Stats.after_nothing _).symm rfl rfl, rfl, ?_⟩
    simp [hasRoom, free]
  | @clean page _ frame history full chosen seat unpinned clean =>
    rw [seat.clearing full chosen, clean]
    have present : pool.contains page = true := contains_iff.mpr ⟨id, seat.resident⟩
    exact ⟨some page, charged_evicted present id, rfl, by simp [hasRoom, chosen]⟩
  | @saved page _ frame history data disk full chosen seat unpinned dirty served =>
    rw [seat.clearing full chosen, dirty]
    have written : Charged pool _ {} none none (pool.saved id frame disk) ∧ _ := charged_write served rfl rfl
    have present : (pool.saved id frame disk).contains page = true := contains_iff.mpr ⟨id, seat.resident⟩
    have both := written.1.follow written.2 (charged_evicted present id) (.inl rfl)
    exact ⟨some page, both, written.2, by simp [hasRoom, chosen]⟩

theorem Claimed.charged_error {failure : Failure} (claimed : Claimed pool (.error failure later)) :
    Charged pool pool.clearing {} none none later ∧
      (pool.clearing = [] ∧ pool.hasRoom = false ∨ pool.hasRoom = true ∧ Accepts pool.disk pool.clearing = false) := by
  cases claimed with
  | crowded full fixed =>
    have crowded := clearing_of_crowded full fixed
    rw [crowded.1]
    exact ⟨charged_nothing _, .inl ⟨rfl, crowded.2⟩⟩
  | @unsaved page id frame history error disk full chosen seat unpinned dirty failed =>
    rw [seat.clearing full chosen, dirty]
    have refused : Charged pool _ {} none none { pool with disk } ∧ _ :=
      charged_write failed rfl (by simp [Except.isOk, Except.toBool])
    exact ⟨refused.1, .inr ⟨by simp [hasRoom, chosen], refused.2⟩⟩

theorem Made.charged_ok {answer : PageId × FrameId} (made : Made pool (.ok answer later)) (kept : Bookkept [] pool) :
    ∃ gone came, Charged pool pool.clearing { evictions := gone.toList.length, makings := 1 } gone came later := by
  cases made with
  | @made id frame middle claimed idle room =>
    obtain ⟨gone, claim, all, -⟩ := claimed.charged_ok
    have installed : Charged middle [] { makings := 1 } none (some ⟨pool.next⟩)
        (Pool.install { middle with next := pool.next + 1 } ⟨pool.next⟩ id frame) := by
      refine .of_insert rfl (claimed.absent kept.next_absent) rfl ?_ rfl rfl
      simp [Stats.after, Worker.serve, Pool.install]
    have both := claim.trans all installed (.inr rfl) fun page same => by
      cases same
      exact absent_iff.mpr kept.next_absent
    rw [List.append_nil, Option.or_none] at both
    exact ⟨gone, _, both⟩

theorem Made.charged_error {error : Error} (made : Made pool (.error (.error error) later)) :
    Charged pool pool.clearing {} none none later := by
  cases made with
  | refused claimed => exact claimed.charged_error.1

theorem charged_missed (pool : Pool σ) : Charged pool [] { misses := 1 } none none pool.missed := by
  refine .of_same rfl rfl ?_ rfl rfl
  simp [missed, Stats.after, Worker.serve]

theorem charged_loaded {bytes : Page} {disk : Worker σ} (absent : pool.residents[page]? = none)
    (served : pool.disk.perform (.read page) = (.ok bytes, disk)) (id : FrameId) (frame : Frame) :
    Charged pool [.read page] {} none (some page) (pool.loaded page id frame bytes disk) := by
  have served := Worker.serve_one served
  refine .of_insert rfl absent ?_ ?_ rfl ?_
  · rw [served]
    rfl
  · rw [served]
    simp [Pool.loaded, Pool.install, Pool.didRead, Stats.after, Except.isOk, Except.toBool]
  · rw [served]
    rfl

theorem charged_unread {error : Error} {disk : Worker σ}
    (failed : pool.disk.perform (.read page) = (.error error, disk)) (id : FrameId) :
    Charged pool [.read page] {} none none { pool with disk, free := pool.free ++ [id] } := by
  have served := Worker.serve_one failed
  refine .of_same rfl ?_ ?_ rfl ?_
  · rw [served]
  · rw [served]
    simp [Stats.after, Except.isOk, Except.toBool]
  · rw [served]
    rfl

theorem Fetched.charged_ok (fetched : Fetched pool page (.ok id later)) :
    pool.knows page = true ∧ ∃ gone came, Charged pool (pool.reading page)
      { hits := (pool.contains page).toNat
        misses := (!pool.contains page).toNat
        evictions := gone.toList.length } gone came later := by
  cases fetched with
  | @hit _ frame history known seat room =>
    have present : pool.contains page = true := contains_iff.mpr ⟨id, seat.resident⟩
    refine ⟨knows_iff.mpr known, none, none, ?_⟩
    rw [reading_of_present present, present]
    refine .of_same rfl rfl ?_ rfl rfl
    simp [Pool.hit, Stats.after, Worker.serve]
  | @loaded _ frame middle bytes disk known absent claimed idle served =>
    obtain ⟨gone, claim, all, room⟩ := claimed.charged_ok
    have away : pool.contains page = false := absent_iff.mpr absent
    have missing := (charged_missed pool).follow rfl claim (.inl rfl)
    have loaded := charged_loaded (claimed.absent absent) served id frame
    have whole := missing.trans all loaded (.inr rfl) fun other same => by
      cases same
      exact away
    refine ⟨knows_iff.mpr known, gone, some page, ?_⟩
    rw [reading_of_absent (knows_iff.mpr known) away, if_pos (show pool.hasRoom = true from room), away]
    rw [Option.none_or, Option.or_none] at whole
    cases gone <;> exact whole

theorem Fetched.charged_error {error : Error} (fetched : Fetched pool page (.error (.error error) later))
    (known : pool.knows page = true) :
    pool.contains page = false ∧ ∃ gone, Charged pool (pool.reading page)
      { misses := 1, evictions := gone.toList.length } gone none later := by
  cases fetched with
  | unknown unknown => exact absurd (knows_iff.mp known) unknown
  | refused absent claimed =>
    have away : pool.contains page = false := absent_iff.mpr absent
    obtain ⟨claim, reason⟩ := claimed.charged_error
    have missing := (charged_missed pool).follow rfl claim (.inl rfl)
    refine ⟨away, none, ?_⟩
    rcases reason with ⟨nothing, crowded⟩ | ⟨room, refused⟩
    · rw [reading_of_absent known away, if_neg (by rw [show pool.hasRoom = false from crowded]; decide)]
      rw [nothing] at missing
      exact missing
    · rw [reading_of_absent known away, if_pos (show pool.hasRoom = true from room)]
      exact missing.stopped refused [.read page]
  | @unread id middle _ disk absent claimed failed =>
    have away : pool.contains page = false := absent_iff.mpr absent
    obtain ⟨gone, claim, all, room⟩ := claimed.charged_ok
    have missing := (charged_missed pool).follow rfl claim (.inl rfl)
    have whole := missing.follow all (charged_unread failed id) (.inr rfl)
    refine ⟨away, gone, ?_⟩
    rw [reading_of_absent known away, if_pos (show pool.hasRoom = true from room)]
    rw [Option.none_or, Option.or_none] at whole
    cases gone <;> exact whole

theorem Flushed.charged_ok {value : Unit} (flushed : Flushed pool page (.ok value later)) :
    Charged pool (pool.writing page) {} none none later ∧ Accepts pool.disk (pool.writing page) = true := by
  cases flushed with
  | @written id frame history data disk seat room served =>
    rw [seat.writing]
    have write : Charged pool _ {} none none (pool.flushed id frame history disk) ∧ _ := charged_write served rfl rfl
    exact write

theorem Flushed.charged_error {error : Error} (flushed : Flushed pool page (.error (.error error) later)) :
    Charged pool (pool.writing page) {} none none later ∧
      (pool.contains page = true → Accepts pool.disk (pool.writing page) = false) := by
  cases flushed with
  | absent absent =>
    have nothing : pool.writing page = [] := by simp [Pool.writing, frameOf?_absent absent]
    rw [nothing]
    exact ⟨charged_nothing pool, fun present => by cases present.symm.trans (absent_iff.mpr absent)⟩
  | @refused id frame history _ disk seat room failed =>
    rw [seat.writing]
    have write : Charged pool _ {} none none (pool.unflushed id frame history disk) ∧ _ :=
      charged_write failed rfl (by simp [Except.isOk, Except.toBool, Pool.unflushed, Pool.unsaved, place])
    exact ⟨write.1, fun _ => write.2⟩

theorem Bookkept.charged_flushEach {pages : List PageId} {answer : Except Error Unit} (kept : Bookkept [] pool)
    (present : ∀ page ∈ pages, pool.contains page = true)
    (answered : Answers (pages.forM Pool.flush) pool answer later) :
    Charged pool (pages.flatMap pool.writing) {} none none later := by
  -- Induction on the pages: a flush changes marks only, so the rest is asked to be written as in the first pool.
  induction pages generalizing pool with
  | nil =>
    cases answer with
    | ok value =>
      cases answered
      exact charged_nothing _
    | error error => cases answered
  | cons page rest ih =>
    have here := present page List.mem_cons_self
    change Answers (Pool.flush page >>= fun _ => rest.forM Pool.flush) pool answer later at answered
    rw [List.flatMap_cons]
    have flushed := kept.flush page
    rcases answered.of_bind with ⟨_, middle, run, more⟩ | ⟨error, run, rfl⟩
    · rw [run] at flushed
      obtain ⟨first, all⟩ := flushed.charged_ok
      obtain ⟨id, resident⟩ := contains_iff.mp here
      obtain ⟨frame, history, seat⟩ := kept.seat resident
      have flush := kept.flush_page seat.frameOf?
      rw [run] at flush
      cases flush with
      | written served unmoved marks counted =>
        have still : ∀ other ∈ rest, middle.contains other = true := fun other member => by
          rw [Pool.contains, unmoved.residents]
          exact present other (List.mem_cons_of_mem _ member)
        have second := ih (PageFlush.kept_ok run kept) still more
        rw [marks.writing] at second
        exact first.follow all second (.inl rfl)
    · rw [run] at flushed
      obtain ⟨first, all⟩ := flushed.charged_error
      exact first.stopped (all here) _

theorem charged_unpinned {dirty answer : Bool} (unpinned : Unpinned pool page dirty (.ok answer later)) :
    Charged pool [] {} none none later := by
  cases unpinned with
  | absent => exact charged_nothing pool
  | unpinned => exact charged_nothing pool
  | released => exact .of_same rfl rfl (Stats.after_nothing _).symm rfl rfl

theorem Deleted.charged {answer : Bool} (deleted : Deleted pool page (.ok answer later)) :
    ∃ gone, Charged pool [] { deletes := answer.toNat, drops := (answer && pool.contains page).toNat } gone none
      later := by
  cases deleted with
  | absent absent =>
    refine ⟨none, ?_⟩
    rw [absent_iff.mpr absent]
    refine .of_same rfl rfl ?_ rfl rfl
    simp [Stats.after, Worker.serve]
  | pinned => exact ⟨none, charged_nothing pool⟩
  | @dropped id frame history seat unpinned =>
    have present : pool.contains page = true := contains_iff.mpr ⟨id, seat.resident⟩
    refine ⟨some page, ?_⟩
    rw [present]
    refine .of_erase rfl present rfl ?_ rfl rfl
    simp [Pool.dropped, Stats.after, Worker.serve]

end Pool

end PagedIndex
