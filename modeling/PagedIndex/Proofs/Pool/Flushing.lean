import Mathlib
import PagedIndex.Proofs.Pool.Coherence

/-!
# What a flush changes

A flush pins its page for a moment and writes it, whether it is pinned or not, dirty or not. When it has ended
the mark of the page tells how the write went, and of the rest of the pool nothing has changed. All pages are
flushed one after the other, in any order, up to the first write that fails; if none does, the store holds what
the pool shows.
-/

namespace PagedIndex

def Frame.marked (frame : Frame) (mark : Option Bool) : Frame := { frame with dirty := mark.getD frame.dirty }

@[simp] theorem Frame.marked_none (frame : Frame) : frame.marked none = frame := rfl

@[simp] theorem Frame.marked_marked (frame : Frame) (first second : Option Bool) :
    (frame.marked first).marked second = frame.marked (second.or first) := by
  cases second <;> rfl

namespace Pool

open PageKeeper (held Usable Loose)

variable {σ : Type} {pool middle later : Pool σ} {spare : List FrameId} {page other : PageId} {id : FrameId}
  {frame : Frame} {history : AccessHistory} {first second : PageId → Option Bool} {pages : List PageId}

/-! ### What stays -/

/-- Pages, free frames and pins are where they were, the replacer remembers and permits the same, and nothing
was counted but writes. -/
structure Unmoved (pool later : Pool σ) : Prop where
  residents : later.residents = pool.residents
  free : later.free = pool.free
  next : later.next = pool.next
  /-- The frames, those without a page too, hold the same bytes and pins; only their marks may be others. -/
  frames : ∀ i : Nat,
    (later.frames[i]?).map (·.marked (some false)) = (pool.frames[i]?).map (·.marked (some false))
  histories : ∀ id : FrameId, later.replacer.histories[id]? = pool.replacer.histories[id]?
  candidates : later.replacer.candidates = pool.replacer.candidates
  k : later.replacer.k = pool.replacer.k
  clock : later.replacer.clock = pool.replacer.clock
  frameCount : later.replacer.frameCount = pool.replacer.frameCount
  stats : later.stats = { pool.stats with writes := later.stats.writes }

theorem Unmoved.refl (pool : Pool σ) : Unmoved pool pool :=
  ⟨rfl, rfl, rfl, fun _ => rfl, fun _ => rfl, rfl, rfl, rfl, rfl, rfl⟩

theorem Unmoved.trans (before : Unmoved pool middle) (after : Unmoved middle later) : Unmoved pool later where
  residents := after.residents.trans before.residents
  free := after.free.trans before.free
  next := after.next.trans before.next
  frames i := (after.frames i).trans (before.frames i)
  histories id := (after.histories id).trans (before.histories id)
  candidates := after.candidates.trans before.candidates
  k := after.k.trans before.k
  clock := after.clock.trans before.clock
  frameCount := after.frameCount.trans before.frameCount
  stats := by
    rw [after.stats, before.stats]

theorem Unmoved.size (unmoved : Unmoved pool later) : later.frames.size = pool.frames.size := by
  have same : ∀ i, later.frames.size ≤ i ↔ pool.frames.size ≤ i := fun i => by
    have here := unmoved.frames i
    rw [← Array.getElem?_eq_none_iff, ← Array.getElem?_eq_none_iff, ← Option.map_eq_none_iff, here,
      Option.map_eq_none_iff]
  exact Nat.le_antisymm ((same _).mpr (Nat.le_refl _)) ((same _).mp (Nat.le_refl _))

/-- Each page shows in the later pool as before, but for the marks that some of them got. -/
def Remarked (pool : Pool σ) (mark : PageId → Option Bool) (later : Pool σ) : Prop :=
  ∀ page, later.frameOf? page = (pool.frameOf? page).map (·.marked (mark page))

theorem Remarked.shown {mark : PageId → Option Bool} (marks : Remarked pool mark later)
    (present : ∃ frame, pool.frameOf? page = some frame) : ∃ frame, later.frameOf? page = some frame := by
  obtain ⟨frame, there⟩ := present
  exact ⟨frame.marked (mark page), (marks page).trans (congrArg _ there)⟩

theorem Remarked.trans (before : Remarked pool first middle) (after : Remarked middle second later) :
    Remarked pool (fun page => (second page).or (first page)) later := by
  intro page
  rw [after, before, Option.map_map]
  exact congrArg (Option.map · _) (funext fun frame => frame.marked_marked _ _)

def onlyOn (page : PageId) (dirty : Bool) (other : PageId) : Option Bool :=
  if page = other then some dirty else none

def cleanOn (pages : List PageId) (page : PageId) : Option Bool := if page ∈ pages then some false else none

theorem cleanOn_cons (page : PageId) (pages : List PageId) :
    cleanOn (page :: pages) = fun other => (cleanOn pages other).or (onlyOn page false other) := by
  funext other
  by_cases here : other ∈ pages
  · simp [cleanOn, here]
  · by_cases same : page = other
    · simp [cleanOn, onlyOn, here, same]
    · simp [cleanOn, onlyOn, here, same, Ne.symm same]

theorem Seat.histories_paused (seat : pool.Seat page id frame history) (other : FrameId) :
    (paused pool.replacer id frame history).histories[other]? = pool.replacer.histories[other]? := by
  unfold paused
  split
  · rename_i unpinned
    have same : { history with evictable := true } = history := by
      cases history
      simpa [unpinned] using seat.evictable.symm
    rw [LruK.histories_permitted, LruK.histories_permitted]
    split
    · rename_i here
      rw [← here, seat.tracked, ← same]
    · rfl
  · rfl

theorem Seat.candidates_paused (seat : pool.Seat page id frame history) (kept : Bookkept spare pool) :
    (paused pool.replacer id frame history).candidates = pool.replacer.candidates := by
  unfold paused
  split
  · rename_i unpinned
    have some_left := LruK.candidates_pos kept.counted (by rw [seat.allows, unpinned]; rfl)
    exact Nat.sub_add_cancel some_left
  · rfl

/-- A frame marked anew, its page withdrawn for a moment, and the store asked. -/
theorem Seat.unmoved (seat : pool.Seat page id frame history) (kept : Bookkept spare pool) (dirty : Bool)
    (frames : later.frames = pool.frames.setIfInBounds id.index { frame with dirty })
    (residents : later.residents = pool.residents) (free : later.free = pool.free)
    (next : later.next = pool.next) (replacer : later.replacer = paused pool.replacer id frame history)
    (stats : later.stats = { pool.stats with writes := later.stats.writes }) :
    Unmoved pool later ∧ Remarked pool (onlyOn page dirty) later := by
  have steady : (paused pool.replacer id frame history).k = pool.replacer.k ∧
      (paused pool.replacer id frame history).clock = pool.replacer.clock ∧
      (paused pool.replacer id frame history).frameCount = pool.replacer.frameCount := by
    unfold paused
    split <;> exact ⟨rfl, rfl, rfl⟩
  constructor
  · refine ⟨residents, free, next, fun i => ?_, fun other => ?_, ?_, ?_, ?_, ?_, stats⟩
    · rw [frames, frames_set seat.index_lt]
      split
      · rename_i here
        rw [← here, seat.frame_at]
        rfl
      · rfl
    · rw [replacer, seat.histories_paused]
    · rw [replacer, seat.candidates_paused kept]
    · rw [replacer, steady.1]
    · rw [replacer, steady.2.1]
    · rw [replacer, steady.2.2]
  · intro other
    have placed : later.frameOf? other = (pool.place id { frame with dirty }).frameOf? other := by
      rw [frameOf?_def, frameOf?_def, frames, residents]
      rfl
    rw [placed, kept.frameOf?_place seat, onlyOn]
    split
    · rename_i here
      rw [← here, seat.frameOf?]
      rfl
    · simp

variable [BackingStore σ]

/-! ### One page -/

/-- All that flushing a page of the pool can do. The worker is asked to write it once, unless there is no room
for the pin that the flush takes. -/
inductive PageFlush (pool : Pool σ) (page : PageId) (frame : Frame) : Result σ Unit → Prop where
  | written {data : Page} {later : Pool σ}
      (served : pool.disk.perform (.write page frame.page) = (.ok data, later.disk))
      (unmoved : Unmoved pool later) (marks : Remarked pool (onlyOn page false) later)
      (counted : later.stats.writes = pool.stats.writes + 1) : PageFlush pool page frame (.ok () later)
  | refused {error : Error} {later : Pool σ}
      (failed : pool.disk.perform (.write page frame.page) = (.error error, later.disk))
      (unmoved : Unmoved pool later) (marks : Remarked pool (onlyOn page true) later)
      (counted : later.stats.writes = pool.stats.writes) : PageFlush pool page frame (.error (.error error) later)
  | full (full : ¬ frame.pins + 1 < wordBound) : PageFlush pool page frame (.error (.violation .overflow) pool)

theorem Bookkept.flush_page (kept : Bookkept spare pool) (present : pool.frameOf? page = some frame) :
    PageFlush pool page frame (Pool.flush page pool) := by
  have flushed := kept.flush page
  have here : ∀ {id : FrameId} {found : Frame} {history : AccessHistory}, pool.Seat page id found history →
      found = frame := fun seat => Option.some.inj (seat.frameOf?.symm.trans present)
  generalize Pool.flush page pool = result at flushed
  cases flushed with
  | absent absent =>
    rw [frameOf?_absent absent] at present
    cases present
  | full seat full =>
    obtain rfl := here seat
    exact .full full
  | @written id found history data disk seat room served =>
    obtain rfl := here seat
    have after : Unmoved pool (pool.flushed id found history disk) ∧ _ :=
      seat.unmoved kept false rfl rfl rfl rfl rfl rfl
    exact .written served after.1 after.2 rfl
  | @refused id found history error disk seat room failed =>
    obtain rfl := here seat
    have after : Unmoved pool (pool.unflushed id found history disk) ∧ _ :=
      seat.unmoved kept true rfl rfl rfl rfl rfl rfl
    exact .refused failed after.1 after.2 rfl

theorem PageFlush.kept_ok (flushed : Pool.flush page pool = .ok () later) (kept : Bookkept [] pool) :
    Bookkept [] later := by
  have orderly := (kept.flush page).orderly kept
  rw [flushed] at orderly
  cases orderly with
  | ok kept_later => exact kept_later

/-! ### All pages -/

/-- The worker was asked to write the pages of a list, one after the other and with their bytes in the pool, and
wrote each of them. -/
inductive Wrote (pool : Pool σ) : Worker σ → List PageId → Worker σ → Prop where
  | nothing {disk : Worker σ} : Wrote pool disk [] disk
  | page {page : PageId} {frame : Frame} {pages : List PageId} {data : Page} {disk next last : Worker σ}
      (present : pool.frameOf? page = some frame)
      (served : disk.perform (.write page frame.page) = (.ok data, next)) (rest : Wrote pool next pages last) :
      Wrote pool disk (page :: pages) last

theorem Wrote.of_remarked {mark : PageId → Option Bool} {disk last : Worker σ} (marks : Remarked pool mark later)
    (wrote : Wrote later disk pages last) : Wrote pool disk pages last := by
  induction wrote with
  | nothing => exact .nothing
  | @page page fresh pages data disk next last present served rest ih =>
    rw [marks page] at present
    obtain ⟨frame, before, rfl⟩ := Option.map_eq_some_iff.mp present
    exact .page before served ih

/-- All that flushing the pages of a list can do, one after the other. -/
inductive Sweep (pool : Pool σ) (pages : List PageId) : Result σ Unit → Prop where
  | done {later : Pool σ} (wrote : Wrote pool pool.disk pages later.disk) (unmoved : Unmoved pool later)
      (marks : Remarked pool (cleanOn pages) later) : Sweep pool pages (.ok () later)
  | stopped {before after : List PageId} {failing : PageId} {frame : Frame} {disk : Worker σ} {error : Error}
      {later : Pool σ} (cut : pages = before ++ failing :: after) (wrote : Wrote pool pool.disk before disk)
      (present : pool.frameOf? failing = some frame)
      (failed : disk.perform (.write failing frame.page) = (.error error, later.disk))
      (unmoved : Unmoved pool later)
      (marks : Remarked pool (fun page => (onlyOn failing true page).or (cleanOn before page)) later) :
      Sweep pool pages (.error (.error error) later)
  | full {before after : List PageId} {failing : PageId} {frame : Frame} {later : Pool σ}
      (cut : pages = before ++ failing :: after) (wrote : Wrote pool pool.disk before later.disk)
      (present : pool.frameOf? failing = some frame) (full : ¬ frame.pins + 1 < wordBound)
      (unmoved : Unmoved pool later) (marks : Remarked pool (cleanOn before) later) :
      Sweep pool pages (.error (.violation .overflow) later)

/-- After a page that was written, what is done to the rest is told of the pool before it. -/
theorem Sweep.after_written {data : Page} {result : Result σ Unit} (present : pool.frameOf? page = some frame)
    (served : pool.disk.perform (.write page frame.page) = (.ok data, middle.disk)) (unmoved : Unmoved pool middle)
    (marks : Remarked pool (onlyOn page false) middle) (swept : Sweep middle pages result) :
    Sweep pool (page :: pages) result := by
  cases swept with
  | done wrote unmoved_rest marks_rest =>
    refine .done (.page present served (wrote.of_remarked marks)) (unmoved.trans unmoved_rest) ?_
    rw [cleanOn_cons]
    exact marks.trans marks_rest
  | @stopped before after failing fresh disk error later cut wrote there failed unmoved_rest marks_rest =>
    rw [marks failing] at there
    obtain ⟨found, start, rfl⟩ := Option.map_eq_some_iff.mp there
    refine .stopped (congrArg (page :: ·) cut) (.page present served (wrote.of_remarked marks)) start failed
      (unmoved.trans unmoved_rest) ?_
    have both := marks.trans marks_rest
    simp only [Option.or_assoc] at both
    rwa [cleanOn_cons]
  | @full before after failing fresh later cut wrote there full unmoved_rest marks_rest =>
    rw [marks failing] at there
    obtain ⟨found, start, rfl⟩ := Option.map_eq_some_iff.mp there
    refine .full (congrArg (page :: ·) cut) (.page present served (wrote.of_remarked marks)) start full
      (unmoved.trans unmoved_rest) ?_
    rw [cleanOn_cons]
    exact marks.trans marks_rest

theorem Bookkept.flush_pages (kept : Bookkept [] pool)
    (present : ∀ page ∈ pages, ∃ frame, pool.frameOf? page = some frame) :
    Sweep pool pages (pages.forM Pool.flush pool) := by
  -- Induction on the pages: the rest is flushed in the pool that the first flush left, which shows the same frames
  -- but for one mark.
  induction pages generalizing pool with
  | nil => exact .done .nothing (.refl pool) fun page => by simp [cleanOn]
  | cons page rest ih =>
    obtain ⟨frame, here⟩ := present page List.mem_cons_self
    have first := kept.flush_page here
    have cut : page :: rest = [] ++ page :: rest := rfl
    change Sweep pool (page :: rest) ((Pool.flush page >>= fun _ => rest.forM Pool.flush) pool)
    generalize run : Pool.flush page pool = result at first
    cases first with
    | @written data middle served unmoved marks counted =>
      have still := fun other member => marks.shown (present other (List.mem_cons_of_mem _ member))
      rw [bind_ok run]
      exact (ih (PageFlush.kept_ok run kept) still).after_written here served unmoved marks
    | refused failed unmoved marks counted =>
      rw [bind_error run]
      refine .stopped cut .nothing here failed unmoved ?_
      simpa [cleanOn] using marks
    | full full =>
      rw [bind_error run]
      exact .full cut .nothing here full (.refl pool) fun page => by simp [cleanOn]

/-- Writes a page to the store, and passes it over if it is not in the pool. -/
def flushPresent (page : PageId) : Action σ Unit := fun pool =>
  match Pool.flush page pool with
  | .error (.error (.pageNotResident _)) later => .ok () later
  | result => result

theorem Bookkept.flushPresent_eq (kept : Bookkept spare pool) (present : pool.frameOf? page = some frame)
    (honest : ∀ other, ¬ Error.OfStore σ (.pageNotResident other)) :
    flushPresent page pool = Pool.flush page pool := by
  have flushed := kept.flush_page present
  unfold flushPresent
  generalize Pool.flush page pool = result at flushed
  cases flushed with
  | written => rfl
  | full => rfl
  | @refused error later failed unmoved marks counted =>
    cases error with
    | pageNotResident other => exact absurd (ofStore_of_failed failed nofun) (honest other)
    | _ => rfl

/-- No page leaves the pool while its pages are flushed, so none has to be passed over, unless the store says itself
that a page is not in the pool. -/
theorem Bookkept.flushPresent_pages (kept : Bookkept [] pool)
    (present : ∀ page ∈ pages, ∃ frame, pool.frameOf? page = some frame)
    (honest : ∀ other, ¬ Error.OfStore σ (.pageNotResident other)) :
    pages.forM flushPresent pool = pages.forM Pool.flush pool := by
  induction pages generalizing pool with
  | nil => rfl
  | cons page rest ih =>
    obtain ⟨frame, here⟩ := present page List.mem_cons_self
    have first := kept.flush_page here
    have same := kept.flushPresent_eq here honest
    change (flushPresent page >>= fun _ => rest.forM flushPresent) pool =
      (Pool.flush page >>= fun _ => rest.forM Pool.flush) pool
    generalize run : Pool.flush page pool = result at first same
    cases first with
    | written served unmoved marks counted =>
      have still := fun other member => marks.shown (present other (List.mem_cons_of_mem _ member))
      rw [bind_ok same, bind_ok run]
      exact ih (PageFlush.kept_ok run kept) still
    | refused => rw [bind_error same, bind_error run]
    | full => rw [bind_error same, bind_error run]

/-! ### The whole pool -/

omit [BackingStore σ] in
theorem listed_iff {order : List PageId} (all : order.Perm pool.residents.keys) :
    page ∈ order ↔ ∃ id, pool.residents[page]? = some id := by
  rw [all.mem_iff, Std.TreeMap.mem_keys, Std.TreeMap.mem_iff_isSome_getElem?, Option.isSome_iff_exists]

omit [BackingStore σ] in
theorem Bookkept.listed_frame (kept : Bookkept spare pool) {order : List PageId}
    (all : order.Perm pool.residents.keys) (member : page ∈ order) : ∃ frame, pool.frameOf? page = some frame := by
  obtain ⟨id, resident⟩ := (listed_iff all).mp member
  obtain ⟨frame, history, seat⟩ := kept.seat resident
  exact ⟨frame, seat.frameOf?⟩

/-- So a flush of all pages need not look whether a page is still there, in whatever order it visits them. -/
theorem Bookkept.flush_all_present (kept : Bookkept [] pool) {order : List PageId}
    (all : order.Perm pool.residents.keys) (honest : ∀ other, ¬ Error.OfStore σ (.pageNotResident other)) :
    order.forM flushPresent pool = order.forM Pool.flush pool :=
  kept.flushPresent_pages (fun _ member => kept.listed_frame all member) honest

/-- The store holds for good the pages that were written, with the bytes they have in the pool, and other pages as
before. -/
theorem Wrote.settles [PageKeeper σ] {disk last : Worker σ} (wrote : Wrote pool disk pages last)
    (usable : Usable disk.store) (valid : ∀ page ∈ pages, page.isValid = true) (other : PageId) :
    (other ∈ pages → Secured last.store other (((pool.frameOf? other).map (·.page)).getD Page.zero)) ∧
      (other ∉ pages → Abides held Loose disk.store last.store other) := by
  induction wrote with
  | nothing => exact ⟨nofun, fun _ => .refl _ other⟩
  | @page page frame pages data disk next last present served rest ih =>
    obtain ⟨usable_next, written, tight, others⟩ :=
      Worker.perform_write_ok usable (valid page List.mem_cons_self) served
    obtain ⟨again, away⟩ := ih usable_next fun other member => valid other (List.mem_cons_of_mem page member)
    refine ⟨fun member => ?_, fun outside => ?_⟩
    · -- A page that is in the rest too is written again, with the same bytes.
      by_cases later : other ∈ pages
      · exact again later
      · obtain rfl := (List.mem_cons.mp member).resolve_right later
        rw [present]
        exact Secured.abides ⟨tight, written.symm⟩ (away later)
    · obtain ⟨differ, later⟩ := not_or.mp (mt List.mem_cons.mpr outside)
      exact (others other (Ne.symm differ)).trans (away later)

/-- What flushing all pages of a pool does, in some order of them. -/
structure PoolFlush (pool : Pool σ) (order : List PageId) (result : Result σ Unit) : Prop where
  swept : Sweep pool order result
  once : order.Nodup
  clean : ∀ later, result = .ok () later → ∀ page frame, later.frameOf? page = some frame → frame.dirty = false
  stored : ∀ [PageKeeper σ], Usable pool.disk.store → ∀ later, result = .ok () later →
    ∀ page, held later.disk.store page = later.visible page ∧
      ((∃ frame, pool.frameOf? page = some frame) ∨ ¬ Loose pool.disk.store page →
        Secured later.disk.store page (pool.visible page) ∧ later.visible page = pool.visible page)

theorem Bookkept.flush_all (kept : Bookkept [] pool) {order : List PageId}
    (all : order.Perm pool.residents.keys) : PoolFlush pool order (order.forM Pool.flush pool) := by
  have shown : ∀ page frame, pool.frameOf? page = some frame → page ∈ order := fun page frame present => by
    rw [frameOf?_def] at present
    obtain ⟨id, resident, -⟩ := Option.bind_eq_some_iff.mp present
    exact (listed_iff all).mpr ⟨id, resident⟩
  have present : ∀ page ∈ order, ∃ frame, pool.frameOf? page = some frame := fun page member =>
    kept.listed_frame all member
  have valid : ∀ page ∈ order, page.isValid = true := fun page member => by
    obtain ⟨id, resident⟩ := (listed_iff all).mp member
    exact kept.isValid resident
  have swept := kept.flush_pages present
  refine ⟨swept, all.nodup_iff.mpr pool.residents.nodup_keys, fun later done page frame there => ?_,
    fun usable later done page => ?_⟩
  · rw [done] at swept
    cases swept with
    | done wrote unmoved marks =>
      rw [marks page] at there
      obtain ⟨found, before, rfl⟩ := Option.map_eq_some_iff.mp there
      simp [Frame.marked, cleanOn, shown page found before]
  · rw [done] at swept
    cases swept with
    | done wrote unmoved marks =>
      obtain ⟨written, away⟩ := wrote.settles usable valid page
      cases before : pool.frameOf? page with
      | none =>
        have outside : page ∉ order := fun member => by
          obtain ⟨frame, there⟩ := present page member
          rw [before] at there
          cases there
        have absent : later.frameOf? page = none := (marks page).trans (by rw [before]; rfl)
        rw [visible_absent before, visible_absent absent]
        refine ⟨rfl, fun kept => ?_⟩
        have tight := kept.resolve_left fun ⟨_, there⟩ => nomatch there
        have same := (away outside).stays tight
        exact ⟨⟨fun loose => tight ((away outside).settles loose), same.symm⟩, same⟩
      | some frame =>
        have secured := written (shown page frame before)
        rw [before] at secured
        have there : later.frameOf? page = some (frame.marked (cleanOn order page)) :=
          (marks page).trans (by rw [before]; rfl)
        rw [visible_present before, visible_present there]
        exact ⟨secured.holds.symm, fun _ => ⟨secured, rfl⟩⟩

/-- After a flush of all pages the store holds for good what was kept for good. -/
theorem Coherent.flushAll_secured [PageKeeper σ] {owed : PageId → Prop} (coherent : Coherent owed [] pool)
    (done : Pool.flushAll pool = .ok () later) (firm : Firm owed pool page) :
    Secured later.disk.store page (pool.visible page) := by
  refine (((coherent.kept.flush_all (.refl _)).stored coherent.usable later done page).2 ?_).1
  cases present : pool.frameOf? page with
  | none => exact .inr ((firm_absent present).mp firm)
  | some frame => exact .inl ⟨frame, rfl⟩

end Pool

end PagedIndex
