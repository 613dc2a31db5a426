import Mathlib
import PagedIndex.Proofs.Pool.Pins

/-!
# Pins in custody

Whoever works on pages holds pins of them: bare pins, and guards that own one pin each. Guards are made, moved
into guards of another kind, read, written, released as often as one likes and dropped, in any order. All the
while every pin is that of a bare holder or of one guard, and each guard gives back the one it had, with a mark
if the page was changed through it.
-/

namespace PagedIndex

open Pool (one)

/-- What a move was to a guard. Guards are numbered in the order in which they are made. -/
inductive Deed where
  | other
  | made (key : Nat) (page : PageId)
  | upgraded (key : Nat)
  | changed (key : Nat)
  | looked (key : Nat)
  | refused (key : Nat)
  | freed (key : Nat)

namespace Deed

def key? : Deed → Option Nat
  | other => none
  | made key _ | upgraded key | changed key | looked key | refused key | freed key => some key

end Deed

/-- A move, with the pools before and after it. -/
structure Occasion (σ : Type) where
  deed : Deed
  before : Pool σ
  after : Pool σ

/-- A pool with the pins that are held in it. -/
structure Custody (σ : Type) where
  pool : Pool σ
  /-- The pages that are pinned without a guard, each as often as it is. -/
  bare : List PageId := []
  /-- The guards by their numbers; nothing is left of one that was dropped. -/
  guards : List (Option Guard) := []

/-- The pin that is left of a guard. -/
def leaseOf (slot : Option Guard) : Option Lease := slot.bind Guard.lease

namespace Custody

variable {σ : Type}

def guarding (guards : List (Option Guard)) (page : PageId) : Nat :=
  guards.countP fun slot => (leaseOf slot).any fun lease => lease.page = page

/-- The deeds of a log, which has the latest first. -/
def deeds (log : List (Occasion σ)) : List Deed := log.map (·.deed)

/-- How many pins of a page the moves of a guard gave back. -/
def unpins (log : List (Occasion σ)) (key : Nat) (page : PageId) : Nat :=
  ((log.filter fun occasion => occasion.deed.key? = some key).map fun occasion =>
    occasion.before.pinsOf page - occasion.after.pinsOf page).sum

variable [BackingStore σ]

/-- The moves of those who hold pins and guards. Bare pins are given back by those who have one; otherwise the pool
may be asked for anything, its frames may be written, and its store may do as it likes. -/
inductive Step (custody : Custody σ) : Deed → Custody σ → Prop where
  | new {page : PageId} {id : FrameId} {later : Pool σ} (done : Pool.new custody.pool = .ok (page, id) later) :
      Step custody .other { custody with pool := later, bare := page :: custody.bare }
  | fetch {page : PageId} {id : FrameId} {later : Pool σ} (done : Pool.fetch page custody.pool = .ok id later) :
      Step custody .other { custody with pool := later, bare := page :: custody.bare }
  | unpin {page : PageId} {dirty answer : Bool} {later : Pool σ} (mine : page ∈ custody.bare)
      (done : Pool.unpin page dirty custody.pool = .ok answer later) :
      Step custody .other { custody with pool := later, bare := custody.bare.erase page }
  | newGuard {guard : Guard} {page : PageId} {later : Pool σ} (done : Guard.new custody.pool = .ok guard later)
      (named : guard.page = .ok page) :
      Step custody (.made custody.guards.length page)
        { custody with pool := later, guards := custody.guards ++ [some guard] }
  | fetchGuard {page : PageId} {access : Access} {guard : Guard} {later : Pool σ}
      (done : Guard.fetch page access custody.pool = .ok guard later) :
      Step custody (.made custody.guards.length page)
        { custody with pool := later, guards := custody.guards ++ [some guard] }
  | upgrade {key : Nat} {guard : Guard} (mine : custody.guards[key]? = some (some guard))
      (basic : guard.access = .basic) (access : Access) :
      Step custody (.upgraded key) { custody with guards := custody.guards.set key (some (guard.upgrade access)) }
  | mark {key : Nat} {guard changed : Guard} (mine : custody.guards[key]? = some (some guard))
      (writable : guard.access ≠ .read) (done : guard.noteChange = .ok changed) :
      Step custody (.changed key) { custody with guards := custody.guards.set key (some changed) }
  | modify {key : Nat} {guard changed : Guard} {change : Page → Outcome Page} {later : Pool σ}
      (mine : custody.guards[key]? = some (some guard)) (writable : guard.access ≠ .read)
      (done : guard.modify change custody.pool = .ok changed later) :
      Step custody (.changed key) { custody with pool := later, guards := custody.guards.set key (some changed) }
  | read {key : Nat} {guard : Guard} {bytes : Page} {later : Pool σ}
      (mine : custody.guards[key]? = some (some guard)) (done : guard.read custody.pool = .ok bytes later) :
      Step custody (.looked key) { custody with pool := later }
  /-- Whoever reads or writes through a released guard goes on with what that left. -/
  | refuseRead {key : Nat} {guard : Guard} {violation : Violation} {later : Pool σ}
      (mine : custody.guards[key]? = some (some guard)) (gone : guard.isReleased = true)
      (failed : guard.read custody.pool = .error (.violation violation) later) :
      Step custody (.refused key) { custody with pool := later }
  | refuseWrite {key : Nat} {guard : Guard} {change : Page → Outcome Page} {violation : Violation} {later : Pool σ}
      (mine : custody.guards[key]? = some (some guard)) (gone : guard.isReleased = true)
      (failed : guard.modify change custody.pool = .error (.violation violation) later) :
      Step custody (.refused key) { custody with pool := later }
  | release {key : Nat} {guard released : Guard} {later : Pool σ}
      (mine : custody.guards[key]? = some (some guard))
      (done : guard.release custody.pool = .ok released later) :
      Step custody (.freed key) { custody with pool := later, guards := custody.guards.set key (some released) }
  | drop {key : Nat} {guard released : Guard} {later : Pool σ} (mine : custody.guards[key]? = some (some guard))
      (done : guard.release custody.pool = .ok released later) :
      Step custody (.freed key) { custody with pool := later, guards := custody.guards.set key none }
  | call {call : Pool.Call} {later : Pool σ} (pinless : call.Pinless)
      (done : call.run custody.pool = .ok () later) : Step custody .other { custody with pool := later }
  | failed {call : Pool.Call} {error : Error} {later : Pool σ}
      (failed : call.run custody.pool = .error (.error error) later) :
      Step custody .other { custody with pool := later }
  | rewritten {id : FrameId} {frame : Frame} (frame_at : custody.pool.frames[id.index]? = some frame)
      (bytes : Page) (dirty : Bool) :
      Step custody .other { custody with pool := custody.pool.place id { frame with page := bytes, dirty } }
  | disturbed (disk : Worker σ) : Step custody .other { custody with pool := { custody.pool with disk } }

/-- What happened in a pool from its creation on. -/
inductive Run : List (Occasion σ) → Custody σ → Prop where
  | opened {size k : Nat} {store : σ} {pool : Pool σ} (made : Pool.create size k store = .ok pool) : Run [] { pool }
  | moved {log : List (Occasion σ)} {custody later : Custody σ} {deed : Deed} (before : Run log custody)
      (step : Step custody deed later) : Run (⟨deed, custody.pool, later.pool⟩ :: log) later

/-! ### Guards by number -/

section

omit [BackingStore σ]

variable {log : List (Occasion σ)} {occasion : Occasion σ} {pool later : Pool σ} {key : Nat} {page : PageId}
  {guards : List (Option Guard)} {slot : Option Guard} {left : Option Lease} {lease : Lease}

def pinsLeft (left : Option Lease) (page : PageId) : Nat := left.elim 0 fun lease => one lease.page page

theorem guarding_cons (slot : Option Guard) (guards : List (Option Guard)) (page : PageId) :
    guarding (slot :: guards) page = guarding guards page + pinsLeft (leaseOf slot) page := by
  rw [guarding, List.countP_cons, guarding]
  cases leaseOf slot <;> simp [pinsLeft, one]

theorem guarding_append (guards : List (Option Guard)) (slot : Option Guard) (page : PageId) :
    guarding (guards ++ [slot]) page = guarding guards page + pinsLeft (leaseOf slot) page := by
  have alone : guarding [slot] page = pinsLeft (leaseOf slot) page := by
    rw [guarding_cons]
    exact Nat.zero_add _
  rw [← alone]
  exact List.countP_append

theorem guarding_set (mine : guards[key]? = some slot) (fresh : Option Guard) (page : PageId) :
    guarding (guards.set key fresh) page + pinsLeft (leaseOf slot) page =
      guarding guards page + pinsLeft (leaseOf fresh) page := by
  induction guards generalizing key with
  | nil => cases mine
  | cons first rest ih =>
    cases key with
    | zero =>
      cases mine
      rw [List.set_cons_zero, guarding_cons, guarding_cons]
      omega
    | succ key =>
      have inner := ih mine
      rw [List.set_cons_succ, guarding_cons, guarding_cons]
      omega

theorem guarding_pos (mine : guards[key]? = some slot) (given : leaseOf slot = some lease) :
    0 < guarding guards lease.page :=
  List.countP_pos_iff.mpr ⟨slot, List.mem_of_getElem? mine, by simp [given]⟩

/-! ### What the log tells of a guard -/

theorem unpins_cons (occasion : Occasion σ) (log : List (Occasion σ)) (key : Nat) (page : PageId) :
    unpins (occasion :: log) key page =
      (if occasion.deed.key? = some key then occasion.before.pinsOf page - occasion.after.pinsOf page else 0) +
        unpins log key page := by
  by_cases here : occasion.deed.key? = some key <;> simp [unpins, here]

/-- What is left of a guard agrees with what the log tells of it. -/
inductive Tracked (log : List (Occasion σ)) (pool : Pool σ) (key : Nat) : Option Lease → Prop where
  | live {lease : Lease} (made : ∀ page, .made key page ∈ deeds log ↔ lease.page = page)
      (placed : pool.residents[lease.page]? = some lease.frame)
      (marked : lease.dirty = true ↔ .changed key ∈ deeds log) (held : ∀ page, unpins log key page = 0) :
      Tracked log pool key (some lease)
  | freed {page : PageId} (made : ∀ other, .made key other ∈ deeds log ↔ page = other)
      (once : ∀ other, unpins log key other = one page other) : Tracked log pool key none

/-- A move that neither makes a guard, nor writes through it, nor gives its pin back. -/
theorem Tracked.still (tracked : Tracked log pool key left)
    (unmade : ∀ page, occasion.deed ≠ .made key page) (unchanged : occasion.deed ≠ .changed key)
    (pins : occasion.deed.key? = some key → ∀ page, occasion.after.pinsOf page = occasion.before.pinsOf page)
    (placed : ∀ lease, left = some lease → later.residents[lease.page]? = pool.residents[lease.page]?) :
    Tracked (occasion :: log) later key left := by
  have same : ∀ page, unpins (occasion :: log) key page = unpins log key page := fun page => by
    rw [unpins_cons]
    split
    · rename_i here
      rw [pins here, Nat.sub_self, Nat.zero_add]
    · exact Nat.zero_add _
  have made_iff : ∀ page, .made key page ∈ deeds (occasion :: log) ↔ .made key page ∈ deeds log := fun page => by
    simp [deeds, Ne.symm (unmade page)]
  cases tracked with
  | live made here marked held =>
    refine .live (fun page => (made_iff page).trans (made page)) ((placed _ rfl).trans here) ?_
      fun page => (same page).trans (held page)
    simpa [deeds, Ne.symm unchanged] using marked
  | freed made once =>
    exact .freed (fun page => (made_iff page).trans (made page)) fun page => (same page).trans (once page)

/-- A guard is made of which nothing was told before. -/
theorem Tracked.made_now (fresh : ∀ deed ∈ deeds log, deed.key? ≠ some key)
    (deed : occasion.deed = .made key lease.page) (clean : lease.dirty = false)
    (placed : later.residents[lease.page]? = some lease.frame)
    (pins : ∀ page, occasion.before.pinsOf page ≤ occasion.after.pinsOf page) :
    Tracked (occasion :: log) later key (some lease) := by
  refine .live (fun page => ?_) placed ?_ fun page => ?_
  · have unmade : .made key page ∉ deeds log := fun member => fresh _ member rfl
    simp only [deeds] at unmade
    simp [deeds, deed, unmade, eq_comm]
  · have unchanged : .changed key ∉ deeds log := fun member => fresh _ member rfl
    simp only [deeds] at unchanged
    simp [deeds, deed, unchanged, clean]
  · have none_before : unpins log key page = 0 := by
      rw [unpins, List.filter_eq_nil_iff.mpr]
      · rfl
      · intro told member about
        exact fresh told.deed (List.mem_map_of_mem member) (by simpa using about)
    rw [unpins_cons, none_before, Nat.sub_eq_zero_of_le (pins page)]
    split <;> rfl

theorem Tracked.changed (tracked : Tracked log pool key (some lease)) (deed : occasion.deed = .changed key)
    (pins : ∀ page, occasion.after.pinsOf page = occasion.before.pinsOf page)
    (residents : later.residents = pool.residents) :
    Tracked (occasion :: log) later key (some { lease with dirty := true }) := by
  cases tracked with
  | live made placed marked held =>
    refine .live (fun page => ?_) ?_ (by simp [deeds, deed]) fun page => ?_
    · simpa [deeds, deed] using made page
    · rw [residents]
      exact placed
    · rw [unpins_cons, pins, Nat.sub_self, held page]
      simp

theorem Tracked.freed_now (tracked : Tracked log pool key (some lease)) (deed : occasion.deed = .freed key)
    (pins : ∀ page, occasion.after.pinsOf page + one lease.page page = occasion.before.pinsOf page) :
    Tracked (occasion :: log) later key none := by
  cases tracked with
  | live made placed marked held =>
    refine @Tracked.freed _ _ _ _ lease.page (fun other => ?_) fun other => ?_
    · simpa [deeds, deed] using made other
    · have given := pins other
      rw [unpins_cons, held other, if_pos (by rw [deed]; rfl)]
      omega

end

/-! ### What every move keeps -/

/-- The pins of a pool are those of its bare holders and of its guards, and the log tells of every guard. -/
structure Sound (log : List (Occasion σ)) (custody : Custody σ) : Prop where
  kept : Pool.Bookkept [] custody.pool
  pins : ∀ page, custody.pool.pinsOf page = custody.bare.count page + guarding custody.guards page
  tracked : ∀ key slot, custody.guards[key]? = some slot → Tracked log custody.pool key (leaseOf slot)
  numbered : ∀ deed ∈ deeds log, ∀ key, deed.key? = some key → key < custody.guards.length

variable {log : List (Occasion σ)} {custody : Custody σ} {pool later : Pool σ} {key : Nat} {page : PageId}
  {slot : Option Guard} {lease : Lease} {deed : Deed}

omit [BackingStore σ] in
theorem Sound.placed (sound : Sound log custody) (stays : Pool.Stays custody.pool later)
    (mine : custody.guards[key]? = some slot) (given : leaseOf slot = some lease) :
    later.residents[lease.page]? = custody.pool.residents[lease.page]? := by
  refine stays lease.page ?_
  rw [sound.pins]
  have held := guarding_pos mine given
  omega

omit [BackingStore σ] in
theorem Sound.seat (sound : Sound log custody) {guard : Guard}
    (mine : custody.guards[key]? = some (some guard)) (given : guard.lease = some lease) :
    ∃ frame history, custody.pool.Seat lease.page lease.frame frame history := by
  have tracked := sound.tracked key _ mine
  rw [show leaseOf (some guard) = some lease from given] at tracked
  cases tracked with
  | live made placed => exact sound.kept.seat placed

omit [BackingStore σ] in
/-- A move that was about no guard. -/
theorem Sound.aside (sound : Sound log custody) {bare : List PageId} (kept : Pool.Bookkept [] later)
    (stays : Pool.Stays custody.pool later)
    (pins : ∀ page, later.pinsOf page + custody.bare.count page = custody.pool.pinsOf page + bare.count page) :
    Sound (⟨.other, custody.pool, later⟩ :: log) { custody with pool := later, bare } where
  kept := kept
  pins page := by
    have before := sound.pins page
    have after := pins page
    dsimp only
    omega
  tracked key slot mine := (sound.tracked key slot mine).still (by simp) (by simp) (by simp [Deed.key?])
    fun lease given => sound.placed stays mine given
  numbered deed member key about := by
    rcases List.mem_cons.mp member with rfl | member
    · cases about
    · exact sound.numbered deed member key about

omit [BackingStore σ] in
theorem Sound.known (sound : Sound log custody) (mine : custody.guards[key]? = some slot)
    (here : deed.key? = some key) {before after : Pool σ} :
    ∀ told ∈ deeds (⟨deed, before, after⟩ :: log), ∀ number, told.key? = some number →
      number < custody.guards.length := by
  intro told member number about
  rcases List.mem_cons.mp member with rfl | member
  · rw [here] at about
    cases about
    exact (List.getElem?_eq_some_iff.mp mine).1
  · exact sound.numbered told member number about

omit [BackingStore σ] in
/-- A move that was about one guard, and left all others alone. -/
theorem Sound.about (sound : Sound log custody) (mine : custody.guards[key]? = some slot) {fresh : Option Guard}
    (here : deed.key? = some key) (kept : Pool.Bookkept [] later) (stays : Pool.Stays custody.pool later)
    (unmade : ∀ key page, deed ≠ .made key page)
    (tracked : Tracked (⟨deed, custody.pool, later⟩ :: log) later key (leaseOf fresh))
    (pins : ∀ page, later.pinsOf page + pinsLeft (leaseOf slot) page =
      custody.pool.pinsOf page + pinsLeft (leaseOf fresh) page) :
    Sound (⟨deed, custody.pool, later⟩ :: log)
      { custody with pool := later, guards := custody.guards.set key fresh } where
  kept := kept
  pins page := by
    have before := sound.pins page
    have after := pins page
    have moved := guarding_set mine fresh page
    dsimp only
    omega
  tracked other there found := by
    rw [List.getElem?_set] at found
    split at found
    · rename_i same
      subst same
      split at found
      · cases found
        exact tracked
      · cases found
    · rename_i differ
      have away : deed.key? ≠ some other := by
        rw [here]
        simpa using differ
      refine (sound.tracked other there found).still (fun page => unmade other page) ?_
        (fun about => absurd about away) fun lease given => sound.placed stays found given
      intro same
      apply away
      rw [show deed = .changed other from same]
      rfl
  numbered deed member other about := by
    rw [List.length_set]
    exact sound.known mine here deed member other about

omit [BackingStore σ] in
/-- A guard is made, with a pin of its own. -/
theorem Sound.made (sound : Sound log custody) {guard : Guard} (given : guard.lease = some lease)
    (clean : lease.dirty = false) (kept : Pool.Bookkept [] later) (stays : Pool.Stays custody.pool later)
    (placed : later.residents[lease.page]? = some lease.frame)
    (pins : ∀ page, later.pinsOf page = custody.pool.pinsOf page + one lease.page page) :
    Sound (⟨.made custody.guards.length lease.page, custody.pool, later⟩ :: log)
      { custody with pool := later, guards := custody.guards ++ [some guard] } where
  kept := kept
  pins page := by
    have before := sound.pins page
    have after := pins page
    have more := guarding_append custody.guards (some guard) page
    rw [show leaseOf (some guard) = some lease from given] at more
    change _ = _ + one lease.page page at more
    dsimp only
    omega
  tracked key slot found := by
    -- Nothing was told of the number before.
    have fresh : ∀ deed ∈ deeds log, deed.key? ≠ some custody.guards.length := fun deed member about =>
      absurd (sound.numbered deed member _ about) (Nat.lt_irrefl _)
    rw [List.getElem?_append] at found
    split at found
    · rename_i small
      refine (sound.tracked key slot found).still (fun page same => ?_) (by simp) (fun about => ?_)
        fun lease given => sound.placed stays found given
      · cases same
        exact Nat.lt_irrefl _ small
      · cases about
        exact absurd small (Nat.lt_irrefl _)
    · rename_i large
      obtain ⟨rfl, rfl⟩ : key = custody.guards.length ∧ slot = some guard := by
        rw [List.getElem?_singleton] at found
        split at found
        · cases found
          exact ⟨by omega, rfl⟩
        · cases found
      rw [show leaseOf (some guard) = some lease from given]
      exact Tracked.made_now fresh rfl clean placed fun page => by
        rw [pins]
        exact Nat.le_add_right _ _
  numbered deed member key about := by
    rw [List.length_append]
    rcases List.mem_cons.mp member with rfl | member
    · cases about
      simp
    · have small := sound.numbered deed member key about
      exact Nat.lt_of_lt_of_le small (Nat.le_add_right _ _)

omit [BackingStore σ] in
/-- A move through a guard that left the pool and the guard as they were. -/
theorem Sound.watched (sound : Sound log custody) (mine : custody.guards[key]? = some slot)
    (here : deed.key? = some key) (unmade : ∀ key page, deed ≠ .made key page)
    (unchanged : ∀ key, deed ≠ .changed key) : Sound (⟨deed, custody.pool, custody.pool⟩ :: log) custody where
  kept := sound.kept
  pins := sound.pins
  tracked other there found := (sound.tracked other there found).still (fun page => unmade other page)
    (unchanged other) (fun _ _ => rfl) fun _ _ => rfl
  numbered := sound.known mine here

omit [BackingStore σ] in
theorem Sound.changed (sound : Sound log custody) {guard : Guard}
    (mine : custody.guards[key]? = some (some guard)) (given : guard.lease = some lease)
    (kept : Pool.Bookkept [] later) (residents : later.residents = custody.pool.residents)
    (pins : ∀ page, later.pinsOf page = custody.pool.pinsOf page) :
    Sound (⟨.changed key, custody.pool, later⟩ :: log) { custody with
      pool := later
      guards := custody.guards.set key (some { guard with lease := some { lease with dirty := true } }) } := by
  have left : leaseOf (some guard) = some lease := given
  have tracked := sound.tracked key _ mine
  rw [left] at tracked
  refine sound.about mine rfl kept (Pool.stays_of_residents residents) nofun
    (tracked.changed rfl pins residents) fun page => ?_
  rw [pins, left]
  rfl

omit [BackingStore σ] in
theorem Sound.modified (sound : Sound log custody) {guard changed : Guard} {change : Page → Outcome Page}
    (mine : custody.guards[key]? = some (some guard)) (done : guard.modify change custody.pool = .ok changed later) :
    Sound (⟨.changed key, custody.pool, later⟩ :: log)
      { custody with pool := later, guards := custody.guards.set key (some changed) } := by
  cases given : guard.lease with
  | none =>
    rw [Guard.modify_released given] at done
    cases done
  | some lease =>
    obtain ⟨written, rfl⟩ := write_of_modify given done
    obtain ⟨found, bytes, frame_at, rfl⟩ := Pool.placed_of_overwriteFrame written
    exact sound.changed mine given (sound.kept.retouch frame_at rfl rfl) rfl (Pool.pinsOf_retouched frame_at rfl)

/-- A guard is released or dropped. Only the first time is there a pin to give back. -/
theorem Sound.freed (sound : Sound log custody) {guard released : Guard} {fresh : Option Guard}
    (mine : custody.guards[key]? = some (some guard)) (done : guard.release custody.pool = .ok released later)
    (gone : leaseOf fresh = none) :
    Sound (⟨.freed key, custody.pool, later⟩ :: log)
      { custody with pool := later, guards := custody.guards.set key fresh } := by
  have tracked := sound.tracked key _ mine
  rcases (unpin_of_release done).2 with ⟨empty, rfl⟩ | ⟨lease, answer, given, outcome⟩
  · have left : leaseOf (some guard) = none := empty
    rw [left] at tracked
    refine sound.about mine rfl sound.kept (Pool.stays_of_residents rfl) nofun ?_ fun page => ?_
    · rw [gone]
      exact tracked.still nofun nofun (fun _ _ => rfl) nofun
    · rw [left, gone]
  · have left : leaseOf (some guard) = some lease := given
    rw [left] at tracked
    have unpinned := sound.kept.unpin lease.page lease.dirty
    rw [outcome] at unpinned
    have pinned : 0 < custody.pool.pinsOf lease.page := by
      have held := guarding_pos mine left
      rw [sound.pins]
      omega
    have orderly := unpinned.orderly sound.kept
    have counts := unpinned.pinsOf sound.kept
    obtain rfl : answer = true := (counts lease.page).2.mpr pinned
    cases orderly with
    | ok kept stays =>
      refine sound.about mine rfl kept stays nofun ?_ fun page => ?_
      · rw [gone]
        exact tracked.freed_now rfl fun page => (counts page).1
      · rw [left, gone]
        exact (counts page).1

omit [BackingStore σ] in
theorem Sound.bare_pinned (sound : Sound log custody) (kept : Pool.Bookkept [] later)
    (stays : Pool.Stays custody.pool later)
    (pins : ∀ other, later.pinsOf other = custody.pool.pinsOf other + one page other) :
    Sound (⟨.other, custody.pool, later⟩ :: log)
      { custody with pool := later, bare := page :: custody.bare } := by
  refine sound.aside kept stays fun other => ?_
  rw [pins, List.count_cons, one]
  simp only [beq_iff_eq]
  omega

theorem Sound.bare_unpinned (sound : Sound log custody) {dirty answer : Bool} (mine : page ∈ custody.bare)
    (done : Pool.unpin page dirty custody.pool = .ok answer later) :
    Sound (⟨.other, custody.pool, later⟩ :: log)
      { custody with pool := later, bare := custody.bare.erase page } := by
  have unpinned := sound.kept.unpin page dirty
  rw [done] at unpinned
  have held : 0 < custody.bare.count page := List.count_pos_iff.mpr mine
  have pinned : 0 < custody.pool.pinsOf page := by
    rw [sound.pins]
    omega
  have counts := unpinned.pinsOf sound.kept
  obtain rfl : answer = true := (counts page).2.mpr pinned
  cases unpinned.orderly sound.kept with
  | ok kept stays =>
    refine sound.aside kept stays fun other => ?_
    have given := (counts other).1
    rw [if_pos rfl, one] at given
    rw [List.count_erase]
    by_cases same : page = other
    · subst same
      simp only [if_true, beq_self_eq_true] at given ⊢
      omega
    · rw [if_neg same] at given
      rw [if_neg (by simpa using same)]
      omega

theorem Sound.step (sound : Sound log custody) {next : Custody σ} (step : Step custody deed next) :
    Sound (⟨deed, custody.pool, next.pool⟩ :: log) next := by
  -- Each move has one of five shapes: it is about no guard, or it makes, watches, changes or frees one.
  have pool_kept := sound.kept
  cases step with
  | @new page id later done =>
    have made := pool_kept.new
    rw [done] at made
    cases made.orderly pool_kept with
    | ok kept stays => exact sound.bare_pinned kept stays (made.pinsOf_ok pool_kept)
  | @fetch page id later done =>
    have fetched := pool_kept.fetch page
    rw [done] at fetched
    cases fetched.orderly pool_kept with
    | ok kept stays => exact sound.bare_pinned kept stays (fetched.pinsOf_ok pool_kept)
  | unpin mine done => exact sound.bare_unpinned mine done
  | @newGuard guard page later done named =>
    obtain ⟨other, id, run, rfl⟩ := new_of_newGuard done
    cases named
    have made := pool_kept.new
    rw [run] at made
    cases made.orderly pool_kept with
    | ok kept stays => exact sound.made rfl rfl kept stays made.resident (made.pinsOf_ok pool_kept)
  | @fetchGuard page access guard later done =>
    obtain ⟨id, run, rfl⟩ := fetch_of_fetchGuard done
    have fetched := pool_kept.fetch page
    rw [run] at fetched
    cases fetched.orderly pool_kept with
    | ok kept stays =>
      have given : Guard.lease ⟨access, some { page, frame := id }⟩ = some { page, frame := id } := rfl
      exact sound.made given rfl kept stays fetched.resident (fetched.pinsOf_ok pool_kept)
  | @upgrade key guard mine basic access =>
    refine sound.about mine rfl pool_kept (Pool.stays_of_residents rfl) (by simp) ?_ fun page => rfl
    exact (sound.tracked key _ mine).still (by simp) (by simp) (fun _ _ => rfl) fun _ _ => rfl
  | @mark key guard changed mine writable done =>
    cases given : guard.lease with
    | none =>
      rw [Guard.noteChange_released given] at done
      cases done
    | some lease =>
      rw [Guard.noteChange_live given] at done
      cases done
      exact sound.changed mine given pool_kept rfl fun _ => rfl
  | modify mine writable done => exact sound.modified mine done
  | @read key guard bytes later mine done =>
    cases given : guard.lease with
    | none =>
      rw [Guard.read_released given] at done
      cases done
    | some lease =>
      obtain ⟨frame, history, seat⟩ := sound.seat mine given
      rw [Guard.read_live given seat.frame_at] at done
      cases done
      exact sound.watched mine rfl (by simp) (by simp)
  | @refuseRead key guard violation later mine gone failed =>
    rw [Guard.read_released (Option.isNone_iff_eq_none.mp gone)] at failed
    cases failed
    exact sound.watched mine rfl (by simp) (by simp)
  | @refuseWrite key guard change violation later mine gone failed =>
    rw [Guard.modify_released (Option.isNone_iff_eq_none.mp gone)] at failed
    cases failed
    exact sound.watched mine rfl (by simp) (by simp)
  | release mine done => exact sound.freed mine done (unpin_of_release done).1
  | drop mine done => exact sound.freed mine done rfl
  | @call call later pinless done =>
    have pins := pool_kept.pinsOf_pinless pinless
    have orderly := pool_kept.call call
    rw [done] at pins orderly
    cases orderly with
    | ok kept stays => exact sound.aside kept stays fun page => by rw [← pins page]; rfl
  | @failed call error later failed =>
    have pins := pool_kept.pinsOf_failed failed
    have orderly := pool_kept.call call
    rw [failed] at orderly
    cases orderly with
    | error kept stays => exact sound.aside kept stays fun page => by rw [pins page]
  | @rewritten id frame frame_at bytes dirty =>
    have pins : ({ frame with page := bytes, dirty } : Frame).pins = frame.pins := rfl
    exact sound.aside (pool_kept.retouch frame_at rfl rfl) (Pool.stays_of_residents rfl) fun page =>
      congrArg (· + custody.bare.count page) (Pool.pinsOf_retouched frame_at pins page)
  | disturbed disk =>
    exact sound.aside (pool_kept.of_same rfl rfl rfl rfl (UInt32.le_refl _)) (Pool.stays_of_residents rfl)
      fun page => rfl

theorem Run.sound (run : Run log custody) : Sound log custody := by
  induction run with
  | opened made => exact ⟨Pool.create_bookkept made, fun page => Pool.pinsOf_created made page, nofun, nofun⟩
  | moved before step ih => exact ih.step step

/-! ### What the holders may rely on -/

/-- Whatever is tried on a guard that is released is refused and changes nothing; to release it again does nothing. -/
structure Refuses (guard : Guard) (pool : Pool σ) : Prop where
  page : guard.page = .error (.violation .guardReleased)
  mark : guard.noteChange = .error (.violation .guardReleased)
  read : guard.read pool = .error (.violation .guardReleased) pool
  write : ∀ change, guard.modify change pool = .error (.violation .guardReleased) pool
  release : guard.release pool = .ok guard pool

/-- A guard of a page reads it in its frame, which changes nothing. When it is released, its pin is given back, and
the frame is marked if the page was changed through the guard; nothing else about any page changes. -/
structure Serves (changed : Prop) (guard : Guard) (lease : Lease) (pool : Pool σ) : Prop where
  page : guard.page = .ok lease.page
  read : ∃ frame, pool.frameOf? lease.page = some frame ∧ guard.read pool = .ok frame.page pool
  release : ∃ frame later marked, pool.frameOf? lease.page = some frame ∧ (marked = true ↔ changed) ∧
    guard.release pool = .ok { guard with lease := none } later ∧
    ∀ other, later.frameOf? other =
      if lease.page = other then some { frame with pins := frame.pins - 1, dirty := frame.dirty || marked }
      else pool.frameOf? other

/-- What is true of the pins of a pool and of the guards that were made in it. -/
structure Guarded (log : List (Occasion σ)) (custody : Custody σ) : Prop where
  pins : ∀ page, custody.pool.pinsOf page = custody.bare.count page + guarding custody.guards page
  upgrade : ∀ (key : Nat) (guard : Guard) (access : Access), custody.guards[key]? = some (some guard) → ∀ page,
    guarding (custody.guards.set key (some (guard.upgrade access))) page = guarding custody.guards page
  /-- A guard gave back one pin of its page if it was released or dropped, and none before. -/
  once : ∀ (key : Nat) (page : PageId), .made key page ∈ deeds log → ∃ slot, custody.guards[key]? = some slot ∧
    ∀ other, unpins log key other = if (leaseOf slot).isSome then 0 else one page other
  released : ∀ (key : Nat) (guard : Guard), custody.guards[key]? = some (some guard) → guard.lease = none →
    Refuses guard custody.pool
  live : ∀ (key : Nat) (guard : Guard) (lease : Lease), custody.guards[key]? = some (some guard) →
    guard.lease = some lease →
      .made key lease.page ∈ deeds log ∧ Serves (.changed key ∈ deeds log) guard lease custody.pool

omit [BackingStore σ] in
theorem Sound.serves (sound : Sound log custody) {guard : Guard}
    (mine : custody.guards[key]? = some (some guard)) (given : guard.lease = some lease) :
    .made key lease.page ∈ deeds log ∧ Serves (.changed key ∈ deeds log) guard lease custody.pool := by
  obtain ⟨frame, history, seat⟩ := sound.seat mine given
  have tracked := sound.tracked key _ mine
  have left : leaseOf (some guard) = some lease := given
  rw [left] at tracked
  have pinned : 0 < frame.pins := by
    have held := guarding_pos mine left
    rw [← seat.pinsOf, sound.pins]
    omega
  cases tracked with
  | live made placed marked held =>
    have named : guard.page = .ok lease.page := by
      rw [Guard.page, Guard.held_live given]
      rfl
    refine ⟨(made lease.page).mpr rfl, named, ⟨frame, seat.frameOf?, Guard.read_live given seat.frame_at⟩,
      frame, _, lease.dirty, seat.frameOf?, marked,
      Guard.release_live given (sound.kept.unpin_released seat pinned lease.dirty), fun other => ?_⟩
    exact (Pool.frameOf?_congr rfl rfl other).trans (sound.kept.frameOf?_place seat _ other)

/-- Whatever is done with bare pins and guards, every pin is accounted for, every guard gives its own back once, and
it marks its page just if that was changed through it. -/
theorem Run.pins_accounted (run : Run log custody) : Guarded log custody where
  pins := run.sound.pins
  upgrade key guard access mine page := by
    have moved := guarding_set mine (some (guard.upgrade access)) page
    exact Nat.add_right_cancel moved
  once key page made := by
    have small := run.sound.numbered _ made key rfl
    obtain ⟨slot, mine⟩ : ∃ slot, custody.guards[key]? = some slot := ⟨_, List.getElem?_eq_getElem small⟩
    refine ⟨slot, mine, fun other => ?_⟩
    have tracked := run.sound.tracked key slot mine
    cases left : leaseOf slot with
    | none =>
      rw [left] at tracked
      cases tracked with
      | @freed there told once =>
        obtain rfl := (told page).mp made
        exact once other
    | some lease =>
      rw [left] at tracked
      cases tracked with
      | live told placed marked held => exact held other
  released key guard mine gone :=
    ⟨Guard.page_released gone, Guard.noteChange_released gone, Guard.read_released gone,
      Guard.modify_released gone, Guard.release_released gone⟩
  live key guard lease mine given := run.sound.serves mine given

/-- A guard of a new page is marked, moved into a write guard and released. -/
theorem pins_accounted_one_guard : ∃ (log : List (Occasion RamStore)) (custody : Custody RamStore), Run log custody ∧
    custody.guards = [some ⟨.write, none⟩] ∧ Guarded log custody := by
  obtain ⟨pool, opened⟩ : ∃ pool : Pool RamStore, Pool.create 1 2 RamStore.empty = .ok pool := ⟨_, rfl⟩
  obtain ⟨middle, last, first, final⟩ : ∃ middle last,
      Guard.new pool = .ok ⟨.basic, some { page := ⟨0⟩, frame := ⟨0⟩ }⟩ middle ∧
        Guard.release ⟨.write, some { page := ⟨0⟩, frame := ⟨0⟩, dirty := true }⟩ middle =
          .ok ⟨.write, none⟩ last := by
    cases opened
    exact ⟨_, _, rfl, rfl⟩
  have start : Run [] ({ pool } : Custody RamStore) := .opened opened
  have made := start.moved (.newGuard first rfl)
  have marked := made.moved (@Step.mark _ _ _ 0 _ _ rfl (by decide) rfl)
  have upgraded := marked.moved (@Step.upgrade _ _ _ 0 _ rfl rfl .write)
  have released := upgraded.moved (@Step.release _ _ _ 0 _ _ _ rfl final)
  exact ⟨_, _, released, rfl, released.pins_accounted⟩

end Custody

end PagedIndex
