import Mathlib
import PagedIndex.Proofs.Pool.Pins

/-!
# What the pool shows of a page

A page is seen in its frame, or else in the store. Operations of the pool move bytes between the two, but
what is seen stays. A clean frame may be dropped because it shows what the store holds; a page that somebody
has changed and not yet marked is owed to the store, and pinned until it is marked. That the store holds a page for
good may fail for one reason only: bytes of a write that failed lie behind the store's end. Of such a page the pool
shows zeros until the end moves.
-/

namespace PagedIndex.Pool

open PageKeeper (held Usable Loose Tight)

variable {σ : Type} [BackingStore σ] [PageKeeper σ] {pool later last : Pool σ} {spare ready : List FrameId}
  {owed due left : PageId → Prop} {page other : PageId} {id : FrameId} {frame fresh : Frame}
  {history : AccessHistory} {bytes : Page} {store disk : σ}

/-- The content of a page: what its frame shows, or else what the store holds. -/
def visible (pool : Pool σ) (page : PageId) : Page :=
  match pool.frameOf? page with
  | some frame => frame.page
  | none => held pool.disk.store page

theorem visible_present (present : pool.frameOf? page = some frame) : pool.visible page = frame.page := by
  rw [visible, present]

theorem visible_absent (absent : pool.frameOf? page = none) :
    pool.visible page = held pool.disk.store page := by
  rw [visible, absent]

theorem Seat.visible (seat : pool.Seat page id frame history) : pool.visible page = frame.page :=
  visible_present seat.frameOf?

/-! ### Pages that are kept for good -/

/-- The store holds these bytes of a page, whatever becomes of other pages. -/
structure Secured (store : σ) (page : PageId) (bytes : Page) : Prop where
  tight : ¬ Loose store page
  holds : bytes = held store page

omit [PageKeeper σ] in
theorem Secured.abides [PageKeeper σ] (secured : Secured store page bytes)
    (abides : Abides held Loose store disk page) : Secured disk page bytes :=
  ⟨fun loose => secured.tight (abides.settles loose), secured.holds.trans (abides.stays secured.tight).symm⟩

/-- What is seen of the page is not lost: its frame will be written first, or the store holds it for good. -/
def Firm (owed : PageId → Prop) (pool : Pool σ) (page : PageId) : Prop :=
  (∃ frame, pool.frameOf? page = some frame ∧ (frame.dirty = true ∨ owed page)) ∨
    Secured pool.disk.store page (pool.visible page)

theorem firm_present (present : pool.frameOf? page = some frame) :
    Firm owed pool page ↔ (frame.dirty = true ∨ owed page) ∨ Secured pool.disk.store page frame.page := by
  simp [Firm, visible_present present, present]

theorem firm_absent (absent : pool.frameOf? page = none) : Firm owed pool page ↔ ¬ Loose pool.disk.store page := by
  simp only [Firm, visible_absent absent, absent]
  exact ⟨fun firm => firm.elim (fun ⟨_, present, _⟩ => nomatch present) (·.tight), fun tight => .inr ⟨tight, rfl⟩⟩

/-- What was kept for good is kept, and seen as before. -/
def Lasting (owed due : PageId → Prop) (pool later : Pool σ) : Prop :=
  ∀ page, Firm owed pool page → Firm due later page ∧ later.visible page = pool.visible page

theorem Lasting.refl (owed : PageId → Prop) (pool : Pool σ) : Lasting owed owed pool pool := fun _ firm => ⟨firm, rfl⟩

theorem Lasting.trans (first : Lasting owed due pool later) (second : Lasting due left later last) :
    Lasting owed left pool last := fun page firm =>
  have ⟨middle, seen⟩ := first page firm
  have ⟨still, seen_last⟩ := second page middle
  ⟨still, seen_last.trans seen⟩

structure Coherent (owed : PageId → Prop) (spare : List FrameId) (pool : Pool σ) : Prop where
  kept : Bookkept spare pool
  usable : Usable pool.disk.store
  blank : ∀ frame ∈ pool.frames, frame.holds = none → frame = Frame.empty
  clean : ∀ {page : PageId} {frame : Frame}, pool.frameOf? page = some frame → frame.dirty = false →
    ¬ owed page → (frame.page = Page.zero ∧ ¬ Tight σ) ∨ Secured pool.disk.store page frame.page
  owed_pinned : ∀ page, owed page → 0 < pool.pinsOf page
  unwritten : ∀ page : PageId, pool.next ≤ page.number → Secured pool.disk.store page Page.zero

/-- What may be lost is nothing but zeros, and only a store of a kind that is not tight can lose that. -/
theorem Coherent.faded (coherent : Coherent owed spare pool) (lost : ¬ Firm owed pool page) :
    pool.visible page = Page.zero ∧ ¬ Tight σ := by
  cases present : pool.frameOf? page with
  | none =>
    rw [firm_absent present, not_not] at lost
    rw [visible_absent present, PageKeeper.loose_blank coherent.usable lost]
    exact ⟨rfl, fun tight => tight _ _ lost⟩
  | some frame =>
    rw [firm_present present, not_or, not_or] at lost
    obtain ⟨⟨tidy, free⟩, unsecured⟩ := lost
    rw [visible_present present]
    exact (coherent.clean present (by simpa using tidy) free).resolve_right unsecured

theorem Coherent.firm (coherent : Coherent owed spare pool) (written : pool.visible page ≠ Page.zero) :
    Firm owed pool page := by
  by_contra lost
  exact written (coherent.faded lost).1

theorem Coherent.firm_of_tight (coherent : Coherent owed spare pool) (tight : Tight σ) (page : PageId) :
    Firm owed pool page := by
  by_contra lost
  exact (coherent.faded lost).2 tight

/-- The pool has changed at one page, and the store in nothing that it holds of others. -/
structure Confined (page : PageId) (pool later : Pool σ) : Prop where
  frames : ∀ other, page ≠ other → later.frameOf? other = pool.frameOf? other
  abides : ∀ other, page ≠ other → Abides held Loose pool.disk.store later.disk.store other

theorem Confined.firm (confined : Confined page pool later) (differ : page ≠ other)
    (owing : owed other → due other) (firm : Firm owed pool other) :
    Firm due later other ∧ later.visible other = pool.visible other := by
  have same := confined.frames other differ
  have abides := confined.abides other differ
  cases present : pool.frameOf? other with
  | none =>
    rw [present] at same
    rw [firm_absent present] at firm
    rw [firm_absent same, visible_absent same, visible_absent present]
    exact ⟨fun loose => firm (abides.settles loose), abides.stays firm⟩
  | some frame =>
    rw [present] at same
    rw [firm_present present] at firm
    rw [firm_present same, visible_present same, visible_present present]
    exact ⟨firm.imp (.imp_right owing) (·.abides abides), rfl⟩

theorem Confined.pinsOf (confined : Confined page pool later) (differ : page ≠ other) :
    later.pinsOf other = pool.pinsOf other := by
  rw [Pool.pinsOf, confined.frames other differ, Pool.pinsOf]

/-- A change of one page is coherent if it is so at that page. -/
theorem Coherent.confined (coherent : Coherent owed spare pool) (confined : Confined page pool later)
    (owing : ∀ other, page ≠ other → (due other ↔ owed other)) (kept : Bookkept ready later)
    (usable : Usable later.disk.store)
    (blank : ∀ frame ∈ later.frames, frame.holds = none → frame = Frame.empty)
    (clean : ∀ frame, later.frameOf? page = some frame → frame.dirty = false → ¬ due page →
      (frame.page = Page.zero ∧ ¬ Tight σ) ∨ Secured later.disk.store page frame.page)
    (pinned : due page → 0 < later.pinsOf page) (numbered : page.number < later.next)
    (next : pool.next ≤ later.next) : Coherent due ready later where
  kept := kept
  usable := usable
  blank := blank
  clean {other frame} present tidy settled := by
    by_cases same : page = other
    · subst same
      exact clean frame present tidy settled
    · rw [confined.frames other same] at present
      have before := coherent.clean present tidy fun owes => settled ((owing other same).mpr owes)
      exact before.imp_right (·.abides (confined.abides other same))
  owed_pinned other owes := by
    by_cases same : page = other
    · subst same
      exact pinned owes
    · rw [confined.pinsOf same]
      exact coherent.owed_pinned other ((owing other same).mp owes)
  unwritten other outside := by
    have differ : page ≠ other := by
      rintro rfl
      exact absurd numbered (UInt32.not_lt.mpr outside)
    exact (coherent.unwritten other (UInt32.le_trans next outside)).abides (confined.abides other differ)

omit [BackingStore σ] [PageKeeper σ] in
theorem Bookkept.isValid (kept : Bookkept spare pool) (resident : pool.residents[page]? = some id) :
    page.isValid = true := by
  have small := kept.numbered resident
  rw [UInt32.lt_iff_toNat_lt] at small
  have bound := pool.next.toNat_lt
  have differ : page.number ≠ 4294967295 := fun same => by
    rw [same] at small
    change 4294967295 < pool.next.toNat at small
    omega
  simpa [PageId.isValid, PageId.invalid] using differ

/-- The frame of one page was changed, and the store at most at that page. -/
structure Reframed (pool : Pool σ) (page : PageId) (id : FrameId) (fresh : Frame) (later : Pool σ) : Prop where
  frames : later.frames = pool.frames.setIfInBounds id.index fresh
  residents : later.residents = pool.residents
  next : later.next = pool.next
  abides : ∀ other, page ≠ other → Abides held Loose pool.disk.store later.disk.store other

theorem Reframed.shown (reframed : Reframed pool page id fresh later) (kept : Bookkept spare pool)
    (seat : pool.Seat page id frame history) (other : PageId) :
    later.frameOf? other = if page = other then some fresh else pool.frameOf? other := by
  rw [← kept.frameOf?_place seat fresh other, frameOf?_def, frameOf?_def, reframed.residents, reframed.frames]
  rfl

theorem Reframed.confined (reframed : Reframed pool page id fresh later) (kept : Bookkept spare pool)
    (seat : pool.Seat page id frame history) : Confined page pool later where
  frames other differ := (reframed.shown kept seat other).trans (if_neg differ)
  abides := reframed.abides

/-- Where the store stays as it is, all other pages are seen as before. -/
theorem Reframed.visible (reframed : Reframed pool page id fresh later) (kept : Bookkept spare pool)
    (seat : pool.Seat page id frame history) (still : later.disk = pool.disk) (other : PageId) :
    later.visible other = if page = other then fresh.page else pool.visible other := by
  have shown := reframed.shown kept seat other
  by_cases same : page = other
  · rw [if_pos same] at shown ⊢
    exact visible_present shown
  · rw [if_neg same] at shown ⊢
    rw [Pool.visible, shown, still, Pool.visible]

theorem Reframed.firm (reframed : Reframed pool page id fresh later) (kept : Bookkept spare pool)
    (seat : pool.Seat page id frame history)
    (keeps : (fresh.dirty = true ∨ due page) ∨ Secured later.disk.store page fresh.page) : Firm due later page :=
  (firm_present ((reframed.shown kept seat page).trans (if_pos rfl))).mpr keeps

theorem Reframed.lasting (reframed : Reframed pool page id fresh later) (kept : Bookkept spare pool)
    (seat : pool.Seat page id frame history) (bytes : fresh.page = frame.page)
    (owing : ∀ other, page ≠ other → owed other → due other) (keeps : Firm owed pool page → Firm due later page) :
    Lasting owed due pool later := by
  intro other firm
  by_cases same : page = other
  · subst same
    refine ⟨keeps firm, ?_⟩
    rw [visible_present ((reframed.shown kept seat page).trans (if_pos rfl)), bytes, seat.visible]
  · exact (reframed.confined kept seat).firm same (owing other same) firm

theorem Reframed.pinsOf (reframed : Reframed pool page id fresh later) (kept : Bookkept spare pool)
    (seat : pool.Seat page id frame history) (other : PageId) :
    later.pinsOf other = if page = other then fresh.pins else pool.pinsOf other := by
  by_cases same : page = other
  · rw [if_pos same, Pool.pinsOf, reframed.shown kept seat, if_pos same]
    rfl
  · rw [if_neg same]
    exact (reframed.confined kept seat).pinsOf same

theorem Reframed.coherent (reframed : Reframed pool page id fresh later) (coherent : Coherent owed spare pool)
    (seat : pool.Seat page id frame history) (owing : ∀ other, page ≠ other → (due other ↔ owed other))
    (kept : Bookkept spare later) (holds : fresh.holds = some page) (usable : Usable later.disk.store)
    (clean : fresh.dirty = false → ¬ due page →
      (fresh.page = Page.zero ∧ ¬ Tight σ) ∨ Secured later.disk.store page fresh.page)
    (pinned : due page → 0 < fresh.pins) : Coherent due spare later := by
  refine coherent.confined (reframed.confined coherent.kept seat) owing kept usable ?_ ?_ ?_ ?_ ?_
  · rw [reframed.frames]
    exact blank_set coherent.blank fun bare => by rw [holds] at bare; cases bare
  · intro found present
    rw [reframed.shown coherent.kept seat, if_pos rfl] at present
    cases present
    exact clean
  · rw [reframed.pinsOf coherent.kept seat, if_pos rfl]
    exact pinned
  · rw [reframed.next]
    exact coherent.kept.numbered seat.resident
  · rw [reframed.next]
    exact UInt32.le_refl _

theorem Coherent.owed_seat (coherent : Coherent owed spare pool) (seat : pool.Seat page id frame history)
    (owes : owed page) : 0 < frame.pins := by
  rw [← seat.pinsOf]
  exact coherent.owed_pinned page owes

/-! ### Pins and bytes -/

theorem reframed_still (frames : later.frames = pool.frames.setIfInBounds id.index fresh)
    (residents : later.residents = pool.residents) (next : later.next = pool.next) (disk : later.disk = pool.disk) :
    Reframed pool page id fresh later :=
  ⟨frames, residents, next, fun other _ => by rw [disk]; exact .refl _ other⟩

theorem reframed_hit :
    Reframed pool page id { frame with pins := frame.pins + 1 } (pool.hit id frame history) :=
  reframed_still rfl rfl rfl rfl

theorem Coherent.hit (coherent : Coherent owed spare pool) (seat : pool.Seat page id frame history) :
    Coherent owed spare (pool.hit id frame history) ∧ Lasting owed owed pool (pool.hit id frame history) := by
  have clean := coherent.clean seat.frameOf?
  refine ⟨reframed_hit.coherent coherent seat (fun _ _ => Iff.rfl) (coherent.kept.hit seat) seat.holds
    coherent.usable clean fun _ => Nat.succ_pos _,
    reframed_hit.lasting coherent.kept seat rfl (fun _ _ owes => owes) fun firm => ?_⟩
  exact reframed_hit.firm coherent.kept seat ((firm_present seat.frameOf?).mp firm)

theorem reframed_released (dirty : Bool) :
    Reframed pool page id { frame with pins := frame.pins - 1, dirty := frame.dirty || dirty }
      (pool.released id frame history dirty) :=
  reframed_still rfl rfl rfl rfl

theorem Coherent.released (coherent : Coherent owed spare pool) (seat : pool.Seat page id frame history)
    (pinned : 0 < frame.pins) {dirty : Bool} (owing : ∀ other, page ≠ other → (due other ↔ owed other))
    (marked : owed page → due page ∨ dirty = true) (shared : due page → 1 < frame.pins) :
    Coherent due spare (pool.released id frame history dirty) ∧
      Lasting owed due pool (pool.released id frame history dirty) := by
  have clean := coherent.clean seat.frameOf?
  have reframed : Reframed pool page id _ (pool.released id frame history dirty) := reframed_released dirty
  refine ⟨reframed.coherent coherent seat owing (coherent.kept.released seat pinned dirty)
    seat.holds coherent.usable (fun tidy settled => ?_) fun owes => Nat.sub_pos_of_lt (shared owes),
    reframed.lasting coherent.kept seat rfl (fun other differ => (owing other differ).mpr) fun firm => ?_⟩
  · obtain ⟨tidy, unmarked⟩ := (Bool.or_eq_false_iff).mp tidy
    refine clean tidy fun owes => ?_
    rcases marked owes with owes | dirty
    · exact settled owes
    · rw [unmarked] at dirty
      cases dirty
  · refine reframed.firm coherent.kept seat ?_
    rcases (firm_present seat.frameOf?).mp firm with (dirty | owes) | secured
    · exact .inl (.inl (by simp [dirty]))
    · exact .inl ((marked owes).symm.imp_left fun dirty => by simp [dirty])
    · exact .inr secured

theorem reframed_place (fresh : Frame) : Reframed pool page id fresh (pool.place id fresh) :=
  reframed_still rfl rfl rfl rfl

theorem Coherent.rewritten (coherent : Coherent owed spare pool) (seat : pool.Seat page id frame history)
    (bytes : Page) (dirty : Bool) (owing : ∀ other, page ≠ other → (due other ↔ owed other))
    (marked : dirty = true ∨ due page) (pinned : 0 < frame.pins) :
    Coherent due spare (pool.place id { frame with page := bytes, dirty }) ∧
      Firm due (pool.place id { frame with page := bytes, dirty }) page := by
  have reframed : Reframed pool page id { frame with page := bytes, dirty } _ := reframed_place _
  refine ⟨reframed.coherent coherent seat owing (coherent.kept.retouch seat.frame_at rfl rfl)
    seat.holds coherent.usable (fun tidy settled => ?_) fun _ => pinned,
    reframed.firm coherent.kept seat (.inl marked)⟩
  rcases marked with dirty | owes
  · rw [show _ = true from dirty] at tidy
    cases tidy
  · exact absurd owes settled

theorem Coherent.marked (coherent : Coherent owed spare pool) (seat : pool.Seat page id frame history) :
    Coherent owed spare (pool.place id { frame with dirty := true }) ∧
      Lasting owed owed pool (pool.place id { frame with dirty := true }) := by
  have pinned := coherent.owed_seat seat
  have reframed : Reframed pool page id { frame with dirty := true } _ := reframed_place _
  exact ⟨reframed.coherent coherent seat (fun _ _ => Iff.rfl)
    (coherent.kept.retouch seat.frame_at rfl rfl) seat.holds coherent.usable (fun tidy => by cases tidy)
    pinned, reframed.lasting coherent.kept seat rfl (fun _ _ owes => owes) fun _ =>
      reframed.firm coherent.kept seat (.inl (.inl rfl))⟩

/-! ### Saving -/

theorem Coherent.saved (coherent : Coherent owed spare pool) (seat : pool.Seat page id frame history)
    {data : Page} {disk : Worker σ}
    (served : pool.disk.perform (.write page frame.page) = (.ok data, disk)) :
    Coherent owed spare (pool.saved id frame disk) ∧ Lasting owed owed pool (pool.saved id frame disk) := by
  have valid := coherent.kept.isValid seat.resident
  have pinned := coherent.owed_seat seat
  obtain ⟨usable, written, tight, others⟩ := Worker.perform_write_ok coherent.usable valid served
  have secured : Secured disk.store page frame.page := ⟨tight, written.symm⟩
  have reframed : Reframed pool page id { frame with dirty := false } (pool.saved id frame disk) :=
    ⟨rfl, rfl, rfl, others⟩
  exact ⟨reframed.coherent coherent seat (fun _ _ => Iff.rfl)
    (coherent.kept.saved seat.frame_at disk) seat.holds usable (fun _ _ => .inr secured) pinned,
    reframed.lasting coherent.kept seat rfl (fun _ _ owes => owes) fun _ =>
      reframed.firm coherent.kept seat (.inr secured)⟩

theorem Coherent.unsaved (coherent : Coherent owed spare pool) (seat : pool.Seat page id frame history)
    {error : Error} {disk : Worker σ}
    (failed : pool.disk.perform (.write page frame.page) = (.error error, disk)) :
    Coherent owed spare (pool.unsaved id frame disk) ∧ Lasting owed owed pool (pool.unsaved id frame disk) := by
  have valid := coherent.kept.isValid seat.resident
  have pinned := coherent.owed_seat seat
  obtain ⟨usable, others⟩ := Worker.perform_write_error coherent.usable valid failed
  have reframed : Reframed pool page id { frame with dirty := true } (pool.unsaved id frame disk) :=
    ⟨rfl, rfl, rfl, others⟩
  exact ⟨reframed.coherent coherent seat (fun _ _ => Iff.rfl)
    (coherent.kept.unsaved seat.frame_at disk) seat.holds usable (fun tidy => by cases tidy) pinned,
    reframed.lasting coherent.kept seat rfl (fun _ _ owes => owes) fun _ =>
      reframed.firm coherent.kept seat (.inl (.inl rfl))⟩

/-! ### Moving pages in and out -/

theorem Coherent.of_same (coherent : Coherent owed spare pool) (kept : Bookkept ready later)
    (frames : later.frames = pool.frames) (residents : later.residents = pool.residents)
    (next : pool.next ≤ later.next) (usable : Usable later.disk.store)
    (abides : ∀ page, Abides held Loose pool.disk.store later.disk.store page) :
    Coherent owed ready later ∧ Lasting owed owed pool later := by
  have same := frameOf?_congr frames residents
  refine ⟨⟨kept, usable, by rw [frames]; exact coherent.blank, fun {page frame} present tidy free => ?_,
    fun page owes => ?_, fun page outside => ?_⟩, fun page firm => ?_⟩
  · rw [same] at present
    exact (coherent.clean present tidy free).imp_right (·.abides (abides page))
  · rw [Pool.pinsOf, same]
    exact coherent.owed_pinned page owes
  · exact (coherent.unwritten page (UInt32.le_trans next outside)).abides (abides page)
  · cases present : pool.frameOf? page with
    | none =>
      rw [firm_absent present] at firm
      rw [← same] at present
      rw [firm_absent present, visible_absent present, visible_absent ((same page).symm.trans present)]
      exact ⟨fun loose => firm ((abides page).settles loose), (abides page).stays firm⟩
    | some frame =>
      rw [firm_present present] at firm
      rw [← same] at present
      rw [firm_present present, visible_present present, visible_present ((same page).symm.trans present)]
      exact ⟨firm.imp_right (·.abides (abides page)), rfl⟩

theorem abides_of_read {store later : σ} (held_same : held later = held store)
    (settles : ∀ other, Loose later other → Loose store other) (page : PageId) : Abides held Loose store later page :=
  ⟨fun _ => by rw [held_same], settles page⟩

theorem Coherent.of_still (coherent : Coherent owed spare pool) (kept : Bookkept ready later)
    (frames : later.frames = pool.frames) (residents : later.residents = pool.residents)
    (next : pool.next ≤ later.next) (disk : later.disk = pool.disk) :
    Coherent owed ready later ∧ Lasting owed owed pool later :=
  coherent.of_same kept frames residents next (by rw [disk]; exact coherent.usable)
    fun page => by rw [disk]; exact .refl _ page

theorem Coherent.vacate (coherent : Coherent owed spare pool) (seat : pool.Seat page id frame history)
    (unpinned : frame.pins = 0) : Coherent owed (id :: spare) (pool.vacate page id) := by
  have shown := coherent.kept.frameOf?_vacate seat
  refine coherent.confined ⟨fun other differ => (shown other).trans (if_neg differ), fun other _ => .refl _ other⟩
    (fun _ _ => Iff.rfl) (coherent.kept.vacate seat unpinned) coherent.usable
    (blank_set coherent.blank fun _ => rfl) (fun found present => ?_) (fun owes => ?_)
    (coherent.kept.numbered seat.resident) (UInt32.le_refl _)
  · rw [shown, if_pos rfl] at present
    cases present
  · have pinned := coherent.owed_seat seat owes
    omega

theorem visible_vacate (kept : Bookkept spare pool) (seat : pool.Seat page id frame history) (other : PageId) :
    (pool.vacate page id).visible other =
      if page = other then held pool.disk.store page else pool.visible other := by
  have shown := kept.frameOf?_vacate seat other
  by_cases same : page = other
  · rw [if_pos same] at shown ⊢
    rw [visible_absent shown, same]
    rfl
  · rw [if_neg same] at shown ⊢
    rw [visible, shown, visible]
    rfl

theorem confined_vacate (kept : Bookkept spare pool) (seat : pool.Seat page id frame history) :
    Confined page pool (pool.vacate page id) where
  frames other differ := (kept.frameOf?_vacate seat other).trans (if_neg differ)
  abides other _ := .refl _ other

/-- A clean page that nobody pins may leave the pool. -/
theorem Coherent.evict (coherent : Coherent owed spare pool) (seat : pool.Seat page id frame history)
    (unpinned : frame.pins = 0) (clean : frame.dirty = false) : Lasting owed owed pool (pool.vacate page id) := by
  intro other firm
  by_cases same : page = other
  · subst same
    have absent := (coherent.kept.frameOf?_vacate seat page).trans (if_pos rfl)
    have secured : Secured pool.disk.store page frame.page := by
      refine ((firm_present seat.frameOf?).mp firm).resolve_left ?_
      rintro (dirty | owes)
      · rw [clean] at dirty
        cases dirty
      · have pinned := coherent.owed_seat seat owes
        omega
    rw [firm_absent absent, visible_absent absent, seat.visible]
    exact ⟨secured.tight, secured.holds.symm⟩
  · exact (confined_vacate coherent.kept seat).firm same (fun owes => owes) firm

theorem confined_install (kept : Bookkept (id :: spare) pool) (page : PageId) (frame : Frame) :
    Confined page pool (pool.install page id frame) where
  frames other differ := (kept.frameOf?_install page frame other).trans (if_neg differ)
  abides other _ := .refl _ other

/-- What the store holds of a loose page are zeros. -/
theorem Coherent.fits (coherent : Coherent owed spare pool) (page : PageId) :
    (held pool.disk.store page = Page.zero ∧ ¬ Tight σ) ∨ Secured pool.disk.store page (held pool.disk.store page) := by
  by_cases loose : Loose pool.disk.store page
  · exact .inl ⟨PageKeeper.loose_blank coherent.usable loose, fun tight => tight _ _ loose⟩
  · exact .inr ⟨loose, rfl⟩

theorem Coherent.install (coherent : Coherent owed (id :: spare) pool)
    (absent : pool.residents[page]? = none) (less : page.number < pool.next) (frame : Frame)
    (shows : frame.page = held pool.disk.store page) :
    Coherent owed spare (pool.install page id frame) ∧ Lasting owed owed pool (pool.install page id frame) := by
  have confined := confined_install coherent.kept page frame
  have here := (coherent.kept.frameOf?_install page frame page).trans (if_pos rfl)
  refine ⟨coherent.confined confined (fun _ _ => Iff.rfl) (coherent.kept.install absent less frame) coherent.usable
    (blank_set coherent.blank fun bare => by cases bare) (fun found present _ _ => ?_) (fun _ => ?_)
    less (UInt32.le_refl _), fun other firm => ?_⟩
  · rw [here] at present
    cases present
    have fits := coherent.fits page
    rwa [← shows] at fits
  · rw [Pool.pinsOf, here]
    exact Nat.one_pos
  · by_cases same : page = other
    · subst same
      have away := frameOf?_absent absent
      rw [firm_absent away] at firm
      rw [firm_present here, visible_present here, visible_absent away]
      exact ⟨.inr ⟨firm, shows⟩, shows⟩
    · exact confined.firm same (fun owes => owes) firm

theorem Coherent.idle_empty (coherent : Coherent owed spare pool) (idle : pool.Idle id frame) :
    frame = Frame.empty :=
  coherent.blank frame (Array.mem_of_getElem? idle.frame_at) idle.holds

theorem Claimed.coherent_ok (claimed : Claimed pool (.ok id later)) (coherent : Coherent owed [] pool) :
    Coherent owed [id] later ∧ Lasting owed owed pool later := by
  have kept := claimed.kept_ok coherent.kept
  cases claimed with
  | free free => exact coherent.of_still kept rfl rfl (UInt32.le_refl _) rfl
  | clean full chosen seat unpinned clean =>
    obtain ⟨ends, lasting⟩ := (coherent.vacate seat unpinned).of_still kept rfl rfl (UInt32.le_refl _) rfl
    exact ⟨ends, (coherent.evict seat unpinned clean).trans lasting⟩
  | @saved page _ frame history data disk full chosen seat unpinned dirty served =>
    obtain ⟨saved, lasting⟩ := coherent.saved seat served
    obtain ⟨ends, still⟩ := (saved.vacate (seat.saved disk) unpinned).of_still kept rfl rfl (UInt32.le_refl _) rfl
    exact ⟨ends, (lasting.trans (saved.evict (seat.saved disk) unpinned rfl)).trans still⟩

theorem Claimed.coherent_error {failure : Failure} (claimed : Claimed pool (.error failure later))
    (coherent : Coherent owed [] pool) : Coherent owed [] later ∧ Lasting owed owed pool later := by
  have kept := claimed.kept_error coherent.kept
  cases claimed with
  | crowded => exact ⟨coherent, .refl owed pool⟩
  | @unsaved page id frame history error disk full chosen seat unpinned dirty failed =>
    have unsaved := coherent.unsaved seat failed
    rwa [unsaved_of_dirty seat.frame_at dirty] at unsaved

/-! ### Each operation -/

/-- Nothing is to be seen of a move but some pins. -/
structure Quiet (owed : PageId → Prop) (gain : PageId → Nat) (pool later : Pool σ) : Prop where
  coherent : Coherent owed [] later
  lasting : Lasting owed owed pool later
  pins : ∀ page, later.pinsOf page = pool.pinsOf page + gain page
  stays : Stays pool later

theorem Coherent.quiet (coherent : Coherent owed [] pool) : Quiet owed (fun _ => 0) pool pool :=
  ⟨coherent, .refl owed pool, fun _ => rfl, stays_of_residents rfl⟩

theorem Claimed.quiet_error {failure : Failure} (claimed : Claimed pool (.error failure later))
    (coherent : Coherent owed [] pool) : Quiet owed (fun _ => 0) pool later where
  coherent := (claimed.coherent_error coherent).1
  lasting := (claimed.coherent_error coherent).2
  pins := claimed.pinsOf coherent.kept
  stays := by cases claimed <;> exact stays_of_residents rfl

theorem Coherent.missed (coherent : Coherent owed spare pool) :
    Coherent owed spare pool.missed ∧ Lasting owed owed pool pool.missed :=
  coherent.of_still coherent.kept.missed rfl rfl (UInt32.le_refl _) rfl

theorem Claimed.quiet_install {middle : Pool σ} (claimed : Claimed pool (.ok id middle))
    (coherent : Coherent owed [] pool) (absent : pool.residents[page]? = none)
    {ready : Pool σ} (readied : Coherent owed [id] ready ∧ Lasting owed owed middle ready)
    (frames : ready.frames = middle.frames) (residents : ready.residents = middle.residents)
    (less : page.number < ready.next) (shows : frame.page = held ready.disk.store page) :
    Quiet owed (one page) pool (ready.install page id frame) := by
  obtain ⟨readied, lasting⟩ := readied
  have absent_ready : ready.residents[page]? = none := by
    rw [residents]
    exact claimed.absent absent
  have pins_ready : ∀ other, ready.pinsOf other = pool.pinsOf other := fun other => by
    rw [Pool.pinsOf, frameOf?_congr frames residents]
    exact claimed.pinsOf coherent.kept other
  obtain ⟨installed, shown⟩ := readied.install absent_ready less frame shows
  refine ⟨installed, ((claimed.coherent_ok coherent).2.trans lasting).trans shown, fun other => ?_, ?_⟩
  · rw [pinsOf_install readied.kept absent_ready, pins_ready]
    rfl
  · exact ((claimed.stays).trans (claimed.pinsOf coherent.kept)
      (stays_of_residents residents)).trans pins_ready (Pool.stays_install absent_ready)

/-- The next page to be made is nowhere yet. -/
theorem Coherent.next_firm (coherent : Coherent owed [] pool) (number : page.number = pool.next) :
    Firm owed pool page ∧ pool.visible page = Page.zero := by
  cases page
  cases number
  have absent := frameOf?_absent coherent.kept.next_absent
  have secured := coherent.unwritten ⟨pool.next⟩ (UInt32.le_refl _)
  rw [firm_absent absent, visible_absent absent]
  exact ⟨secured.tight, secured.holds.symm⟩

theorem Made.quiet_error {error : Error} (made : Made pool (.error (.error error) later))
    (coherent : Coherent owed [] pool) : Quiet owed (fun _ => 0) pool later ∧ later.next = pool.next := by
  cases made with
  | refused claimed => exact ⟨claimed.quiet_error coherent, claimed.next_eq⟩

/-- A page that is not made changes no other one, also where the numbers for pages have run out. -/
theorem Made.lasting_error {failure : Failure} (made : Made pool (.error failure later))
    (coherent : Coherent owed [] pool) : Lasting owed owed pool later := by
  cases made with
  | refused claimed => exact (claimed.coherent_error coherent).2
  | exhausted claimed => exact (claimed.coherent_ok coherent).2

theorem Made.quiet_ok (made : Made pool (.ok (page, id) later)) (coherent : Coherent owed [] pool) :
    Quiet owed (one page) pool later ∧ page.number = pool.next ∧ later.next = pool.next + 1 ∧
      pool.next.toNat + 1 < wordBound ∧ later.residents[page]? = some id := by
  cases made with
  | @made _ frame middle claimed idle room =>
    have next : middle.next = pool.next := claimed.next_eq
    have less := lt_succ_of_room room
    obtain ⟨middling, _⟩ := claimed.coherent_ok coherent
    have numbered : Coherent owed [id] { middle with next := pool.next + 1 } ∧
        Lasting owed owed middle { middle with next := pool.next + 1 } :=
      middling.of_still (middling.kept.of_same rfl rfl rfl rfl (by rw [next]; exact UInt32.le_of_lt less))
        rfl rfl (by rw [next]; exact UInt32.le_of_lt less) rfl
    have blank : frame.page = held middle.disk.store ⟨pool.next⟩ := by
      rw [← (middling.unwritten ⟨pool.next⟩ (UInt32.le_of_eq next)).holds,
        middling.idle_empty ⟨idle.frame_at, idle.holds, idle.pins, idle.untracked⟩]
      rfl
    have quiet := claimed.quiet_install coherent coherent.kept.next_absent numbered rfl rfl less blank
    exact ⟨quiet, rfl, rfl, room, (residents_install ..).trans (if_pos rfl)⟩

theorem Fetched.quiet_error {error : Error} (fetched : Fetched pool page (.error (.error error) later))
    (coherent : Coherent owed [] pool) : Quiet owed (fun _ => 0) pool later ∧ later.next = pool.next := by
  have stays : Stays pool later := by
    have orderly := fetched.orderly coherent.kept
    cases orderly with
    | error _ stays => exact stays
  cases fetched with
  | unknown => exact ⟨coherent.quiet, rfl⟩
  | refused absent claimed =>
    obtain ⟨missed, lasting⟩ := coherent.missed
    have quiet := claimed.quiet_error missed
    exact ⟨⟨quiet.coherent, lasting.trans quiet.lasting, quiet.pins, stays⟩, claimed.next_eq⟩
  | @unread id middle error disk absent claimed failed =>
    obtain ⟨missed, lasting⟩ := coherent.missed
    obtain ⟨middling, seen⟩ := claimed.coherent_ok missed
    obtain ⟨usable, held, settles⟩ := Worker.perform_read_error middling.usable failed
    have next : middle.next = pool.next := claimed.next_eq
    have listed : Bookkept [] { middle with free := middle.free ++ [id] } :=
      middling.kept.reorder (List.perm_append_singleton id _)
    have ends : Coherent owed [] { middle with disk, free := middle.free ++ [id] } ∧
        Lasting owed owed middle { middle with disk, free := middle.free ++ [id] } :=
      middling.of_same (listed.of_same rfl rfl rfl rfl (UInt32.le_refl _)) rfl rfl (UInt32.le_refl _)
        usable (abides_of_read held settles)
    exact ⟨⟨ends.1, (lasting.trans seen).trans ends.2, claimed.pinsOf missed.kept, stays⟩, next⟩

theorem Fetched.quiet_ok (fetched : Fetched pool page (.ok id later)) (coherent : Coherent owed [] pool) :
    Quiet owed (one page) pool later ∧ later.next = pool.next ∧ later.residents[page]? = some id ∧
      page.isValid = true ∧ page.number < pool.next := by
  have pins := fetched.pinsOf_ok coherent.kept
  cases fetched with
  | @hit _ frame history known seat room =>
    obtain ⟨hit, lasting⟩ := coherent.hit seat
    exact ⟨⟨hit, lasting, pins, stays_of_residents rfl⟩, rfl, seat.resident, known⟩
  | @loaded _ frame middle bytes disk known absent claimed idle served =>
    obtain ⟨missed, lasting⟩ := coherent.missed
    obtain ⟨middling, seen⟩ := claimed.coherent_ok missed
    obtain ⟨bytes_held, usable, held_same, settles⟩ := Worker.perform_read_ok middling.usable served
    have next : middle.next = pool.next := claimed.next_eq
    have less : page.number < (middle.didRead disk).next := by
      change page.number < middle.next
      rw [next]
      exact known.2
    have readied : Coherent owed [id] (middle.didRead disk) ∧ Lasting owed owed middle (middle.didRead disk) :=
      middling.of_same (middling.kept.of_same rfl rfl rfl rfl (UInt32.le_refl _)) rfl rfl (UInt32.le_refl _)
        usable (abides_of_read held_same settles)
    have shows : bytes = held (middle.didRead disk).disk.store page := by
      rw [bytes_held]
      exact (congrFun held_same page).symm
    have quiet : Quiet owed (one page) pool.missed (middle.loaded page id frame bytes disk) :=
      claimed.quiet_install missed absent readied rfl rfl less shows
    exact ⟨⟨quiet.coherent, lasting.trans quiet.lasting, pins, quiet.stays⟩, next,
      (residents_install ..).trans (if_pos rfl), known⟩

theorem Flushed.quiet_ok (flushed : Flushed pool page (.ok () later)) (coherent : Coherent owed [] pool) :
    Quiet owed (fun _ => 0) pool later ∧ later.next = pool.next := by
  have pins := flushed.pinsOf
  cases flushed with
  | @written id frame history data disk seat room served =>
    obtain ⟨saved, lasting⟩ := coherent.saved seat served
    obtain ⟨ends, still⟩ := saved.of_still (coherent.kept.flushed seat disk) rfl rfl (UInt32.le_refl _) rfl
    exact ⟨⟨ends, lasting.trans still, pins, stays_of_residents rfl⟩, rfl⟩

theorem Flushed.quiet_error {error : Error} (flushed : Flushed pool page (.error (.error error) later))
    (coherent : Coherent owed [] pool) : Quiet owed (fun _ => 0) pool later ∧ later.next = pool.next := by
  have pins := flushed.pinsOf
  cases flushed with
  | absent => exact ⟨coherent.quiet, rfl⟩
  | @refused id frame history error disk seat room failed =>
    obtain ⟨unsaved, lasting⟩ := coherent.unsaved seat failed
    obtain ⟨ends, still⟩ := unsaved.of_still (coherent.kept.unflushed seat disk) rfl rfl (UInt32.le_refl _) rfl
    exact ⟨⟨ends, lasting.trans still, pins, stays_of_residents rfl⟩, rfl⟩

theorem Quiet.trans {middle : Pool σ} (first : Quiet owed (fun _ => 0) pool middle)
    (second : Quiet owed (fun _ => 0) middle later) : Quiet owed (fun _ => 0) pool later where
  coherent := second.coherent
  lasting := first.lasting.trans second.lasting
  pins page := (second.pins page).trans (first.pins page)
  stays := first.stays.trans first.pins second.stays

theorem Coherent.flushEach (coherent : Coherent owed [] pool) (pages : List PageId)
    (flushed : pages.forM Pool.flush pool = .ok () later ∨
      ∃ error, pages.forM Pool.flush pool = .error (.error error) later) :
    Quiet owed (fun _ => 0) pool later ∧ later.next = pool.next := by
  -- Induction on the pages: one flush is quiet, so the rest begins in a coherent pool again.
  induction pages generalizing pool with
  | nil =>
    rcases flushed with done | ⟨error, failed⟩
    · cases done
      exact ⟨coherent.quiet, rfl⟩
    · cases failed
  | cons page rest ih =>
    change (Pool.flush page >>= fun _ => rest.forM Pool.flush) pool = _ ∨
      ∃ error, (Pool.flush page >>= fun _ => rest.forM Pool.flush) pool = _ at flushed
    have first := coherent.kept.flush page
    generalize run : Pool.flush page pool = result at first
    cases result with
    | ok value middle =>
      rw [bind_ok run] at flushed
      obtain ⟨quiet, next⟩ := first.quiet_ok coherent
      obtain ⟨quiet_rest, next_rest⟩ := ih quiet.coherent flushed
      exact ⟨quiet.trans quiet_rest, next_rest.trans next⟩
    | error failure middle =>
      rw [bind_error run] at flushed
      rcases flushed with done | ⟨error, failed⟩
      · cases done
      · cases failed
        exact first.quiet_error coherent

theorem Deleted.quiet (deleted : Deleted pool page (.ok false later)) (coherent : Coherent owed [] pool) :
    Quiet owed (fun _ => 0) pool later ∧ later.next = pool.next := by
  cases deleted with
  | pinned => exact ⟨coherent.quiet, rfl⟩

/-- A deleted page shows what the store holds of it. -/
structure Reverts (owed : PageId → Prop) (page : PageId) (pool later : Pool σ) : Prop where
  coherent : Coherent owed [] later
  absent : later.residents[page]? = none
  disk : later.disk = pool.disk
  visible : ∀ other, later.visible other = if page = other then held pool.disk.store page else pool.visible other
  firm : ∀ other, page ≠ other → Firm owed pool other → Firm owed later other
  pins : ∀ other, later.pinsOf other = pool.pinsOf other
  unpinned : pool.pinsOf page = 0
  stays : Stays pool later
  next : later.next = pool.next

theorem Deleted.reverts (deleted : Deleted pool page (.ok true later)) (coherent : Coherent owed [] pool) :
    Reverts owed page pool later := by
  have pins := deleted.pinsOf coherent.kept
  cases deleted with
  | absent absent =>
    have kept : Bookkept [] { pool with stats := { pool.stats with deletes := pool.stats.deletes + 1 } } :=
      coherent.kept.of_same rfl rfl rfl rfl (UInt32.le_refl _)
    obtain ⟨ends, lasting⟩ := coherent.of_still kept rfl rfl (UInt32.le_refl _) rfl
    refine ⟨ends, absent, rfl, fun other => ?_, fun other _ firm => (lasting other firm).1, pins, pinsOf_absent absent,
      stays_of_residents rfl, rfl⟩
    split
    · rename_i same
      rw [← same]
      exact visible_absent (frameOf?_absent absent)
    · rfl
  | @dropped id frame history seat unpinned =>
    have kept := coherent.kept.dropped seat unpinned
    obtain ⟨ends, lasting⟩ := (coherent.vacate seat unpinned).of_still kept rfl rfl (UInt32.le_refl _) rfl
    have confined := confined_vacate coherent.kept seat
    exact ⟨ends, (residents_vacate pool page id page).trans (if_pos rfl), rfl, visible_vacate coherent.kept seat,
      fun other differ firm => (lasting other (confined.firm differ (fun owes => owes) firm).1).1, pins,
      seat.pinsOf.trans unpinned, stays_vacate seat unpinned, rfl⟩

theorem Reverts.firm_iff (reverts : Reverts owed page pool later) :
    Firm owed later page ↔ ¬ Loose pool.disk.store page := by
  rw [firm_absent (frameOf?_absent reverts.absent), reverts.disk]

/-- A page that was not in the pool is kept as well as before. -/
theorem Reverts.lasting (reverts : Reverts owed page pool later) (absent : pool.residents[page]? = none) :
    Lasting owed owed pool later := by
  intro other firm
  by_cases same : page = other
  · subst same
    rw [firm_absent (frameOf?_absent absent)] at firm
    rw [reverts.firm_iff, reverts.visible, if_pos rfl, visible_absent (frameOf?_absent absent)]
    exact ⟨firm, rfl⟩
  · exact ⟨reverts.firm other same firm, (reverts.visible other).trans (if_neg same)⟩

/-! ### Reading -/

theorem visible_of_resident (kept : Bookkept spare pool) (resident : pool.residents[page]? = some id) :
    ∃ frame history, pool.Seat page id frame history ∧ pool.visible page = frame.page := by
  obtain ⟨frame, history, seat⟩ := kept.seat resident
  exact ⟨frame, history, seat, seat.visible⟩

/-! ### Calls that fail -/

theorem Coherent.failed (coherent : Coherent owed [] pool) {call : Call} {error : Error}
    (failed : call.run pool = .error (.error error) later) :
    Quiet owed (fun _ => 0) pool later ∧ later.next = pool.next := by
  cases call with
  | new =>
    have made := coherent.kept.new
    rw [error_of_discard failed] at made
    exact made.quiet_error coherent
  | fetch page =>
    have fetched := coherent.kept.fetch page
    rw [error_of_discard failed] at fetched
    exact fetched.quiet_error coherent
  | unpin page dirty =>
    have unpinned := coherent.kept.unpin page dirty
    rw [error_of_discard failed] at unpinned
    cases unpinned
  | flush page =>
    have flushed := coherent.kept.flush page
    rw [show Pool.flush page pool = _ from failed] at flushed
    exact flushed.quiet_error coherent
  | flushAll => exact coherent.flushEach _ (.inr ⟨error, failed⟩)
  | delete page =>
    have deleted := coherent.kept.delete page
    rw [error_of_discard failed] at deleted
    cases deleted
  | newGuard =>
    have made := coherent.kept.new
    rw [error_of_discard (error_of_discard failed)] at made
    exact made.quiet_error coherent
  | fetchGuard page access =>
    have fetched := coherent.kept.fetch page
    rw [error_of_discard (error_of_discard failed)] at fetched
    exact fetched.quiet_error coherent
  | release guard =>
    have released := error_of_discard failed
    unfold Guard.release at released
    cases held : guard.lease with
    | none =>
      rw [held] at released
      cases released
    | some lease =>
      have unpinned := coherent.kept.unpin lease.page lease.dirty
      rw [held] at released
      rw [error_of_discard released] at unpinned
      cases unpinned
  | forgetStats => cases failed

end PagedIndex.Pool
