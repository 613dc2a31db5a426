import Mathlib
import PagedIndex.Proofs.Pool.Ledger

/-!
# Clients of a pool

Clients hold pins, bare ones and those of guards. They change a page only while they hold a pin of it, and
give that pin back as dirty. Then no change is ever lost, whatever the pool does and however its store fails. Only a
page that was deleted after a write of it had failed may change by itself: what that write has left behind the
store's end comes to light when the end moves.
-/

namespace PagedIndex

open PageKeeper (held Usable Loose Intact Tight)

inductive Holder where
  /-- A pin without a guard; its mark says whether the page was changed under it. -/
  | bare (lease : Lease)
  | guarded (guard : Guard)

def Holder.lease? : Holder → Option Lease
  | bare lease => some lease
  | guarded guard => guard.lease

/-- A pool with the pins in its clients' hands, the pages it has made, and the end of its store when it was
created. -/
structure Session (σ : Type) where
  pool : Pool σ
  holders : List Holder := []
  issued : List PageId := []
  origin : UInt32

/-- What is to be seen of a move. -/
inductive Event where
  | quiet
  | changed (page : PageId) (bytes : Page)
  | deleted (page : PageId)
  | made (page : PageId)

namespace Session

variable {σ : Type}

def leases (session : Session σ) : List Lease := session.holders.filterMap Holder.lease?

variable [BackingStore σ] [PageKeeper σ]

/-- The moves of clients that keep to the rules, of their pool, and of its store. -/
inductive Step (session : Session σ) : Event → Session σ → Prop where
  | new {page : PageId} {id : FrameId} {later : Pool σ}
      (done : Pool.new session.pool = .ok (page, id) later) :
      Step session (.made page) { session with
        pool := later
        holders := .bare { page, frame := id } :: session.holders
        issued := page :: session.issued }
  | newGuard {guard : Guard} {lease : Lease} {later : Pool σ}
      (done : Guard.new session.pool = .ok guard later) (fresh : guard.lease = some lease) :
      Step session (.made lease.page) { session with
        pool := later
        holders := .guarded guard :: session.holders
        issued := lease.page :: session.issued }
  | fetch {page : PageId} {id : FrameId} {later : Pool σ}
      (done : Pool.fetch page session.pool = .ok id later) :
      Step session .quiet { session with
        pool := later
        holders := .bare { page, frame := id } :: session.holders }
  | fetchGuard {page : PageId} {access : Access} {guard : Guard} {later : Pool σ}
      (done : Guard.fetch page access session.pool = .ok guard later) :
      Step session .quiet { session with pool := later, holders := .guarded guard :: session.holders }
  | write {before after : List Holder} {lease : Lease} {change : Page → Page} {later : Pool σ}
      (mine : session.holders = before ++ .bare lease :: after)
      (done : Pool.overwriteFrame lease.frame (fun old => return change old) session.pool = .ok () later) :
      Step session (.changed lease.page (change (session.pool.visible lease.page))) { session with
        pool := later
        holders := before ++ .bare { lease with dirty := true } :: after }
  | mark {before after : List Holder} {lease : Lease} {later : Pool σ}
      (mine : session.holders = before ++ .bare lease :: after)
      (done : Pool.setDirty lease.frame session.pool = .ok () later) :
      Step session .quiet { session with pool := later }
  | unpin {before after : List Holder} {lease : Lease} {dirty answer : Bool} {later : Pool σ}
      (mine : session.holders = before ++ .bare lease :: after)
      (marked : lease.dirty = true → dirty = true)
      (done : Pool.unpin lease.page dirty session.pool = .ok answer later) :
      Step session .quiet { session with pool := later, holders := before ++ after }
  /-- A pin that nobody holds is given back. -/
  | unpinAgain {page : PageId} {dirty answer : Bool} {later : Pool σ}
      (nobody : ∀ lease ∈ session.leases, lease.page ≠ page)
      (done : Pool.unpin page dirty session.pool = .ok answer later) :
      Step session .quiet { session with pool := later }
  | modify {before after : List Holder} {guard changed : Guard} {lease : Lease} {change : Page → Page}
      {later : Pool σ} (mine : session.holders = before ++ .guarded guard :: after)
      (given : guard.lease = some lease)
      (done : guard.modify (fun old => return change old) session.pool = .ok changed later) :
      Step session (.changed lease.page (change (session.pool.visible lease.page))) { session with
        pool := later
        holders := before ++ .guarded changed :: after }
  | upgrade {before after : List Holder} {guard : Guard}
      (mine : session.holders = before ++ .guarded guard :: after) (access : Access) :
      Step session .quiet { session with holders := before ++ .guarded (guard.upgrade access) :: after }
  | release {before after : List Holder} {guard released : Guard} {later : Pool σ}
      (mine : session.holders = before ++ .guarded guard :: after)
      (done : guard.release session.pool = .ok released later) :
      Step session .quiet { session with pool := later, holders := before ++ .guarded released :: after }
  | flush {page : PageId} {later : Pool σ} (done : Pool.flush page session.pool = .ok () later) :
      Step session .quiet { session with pool := later }
  | flushAll {later : Pool σ} (done : Pool.flushAll session.pool = .ok () later) :
      Step session .quiet { session with pool := later }
  | delete {page : PageId} {id : FrameId} {later : Pool σ}
      (resident : session.pool.residents[page]? = some id)
      (done : Pool.delete page session.pool = .ok true later) :
      Step session (.deleted page) { session with pool := later }
  | deleteAbsent {page : PageId} {later : Pool σ} (absent : session.pool.residents[page]? = none)
      (done : Pool.delete page session.pool = .ok true later) :
      Step session .quiet { session with pool := later }
  | deletePinned {page : PageId} {later : Pool σ} (done : Pool.delete page session.pool = .ok false later) :
      Step session .quiet { session with pool := later }
  | failed {call : Pool.Call} {error : Error} {later : Pool σ}
      (failed : call.run session.pool = .error (.error error) later) :
      Step session .quiet { session with pool := later }
  /-- The store changes in what it refuses, but not in what it holds for good. -/
  | disturbed (disk : Worker σ) (usable : Usable disk.store)
      (abides : ∀ page, Abides held Loose session.pool.disk.store disk.store page) :
      Step session .quiet { session with pool := { session.pool with disk } }

/-- What is seen of the page does not hang on what becomes of others. -/
def Firm (session : Session σ) (page : PageId) : Prop := Pool.Firm (owedBy session.leases) session.pool page

/-- Every page that was firm is so later, and shows the same. -/
def Lasts (session later : Session σ) : Prop :=
  Pool.Lasting (owedBy session.leases) (owedBy later.leases) session.pool later.pool

/-- What an event says about the content of all pages. -/
def Shows (session later : Session σ) : Event → Prop
  | .quiet => Lasts session later
  | .changed page bytes =>
      (∀ other, later.pool.visible other = if page = other then bytes else session.pool.visible other) ∧
      ∀ other, page = other ∨ session.Firm other → later.Firm other
  | .deleted page =>
      (∀ other, later.pool.visible other =
        if page = other then held session.pool.disk.store page else session.pool.visible other) ∧
      (∀ other, page ≠ other → session.Firm other → later.Firm other) ∧
      (later.Firm page ↔ ¬ Loose session.pool.disk.store page)
  | .made page => page.isValid = true ∧ session.origin ≤ page.number ∧
      (∀ old ∈ session.issued, old.number < page.number) ∧ later.Firm page ∧ later.pool.visible page = Page.zero ∧
      Lasts session later

/-- A session that began with a new pool over a store, and what happened in it. -/
inductive Run (store : σ) : List Event → Session σ → Prop where
  | opened {size k : Nat} {pool : Pool σ} {origin : UInt32} (intact : Intact store)
      (bounded : BackingStore.bound store = .ok origin) (made : Pool.create size k store = .ok pool) :
      Run store [] { pool, origin }
  | moved {events : List Event} {event : Event} {session later : Session σ}
      (before : Run store events session) (step : Step session event later) :
      Run store (events ++ [event]) later

/-! ### What the clients may rely on -/

structure Kept (session : Session σ) : Prop where
  sound : Pool.Sound session.leases (fun _ => 0) session.pool
  issued : ∀ page ∈ session.issued, page.number < session.pool.next
  origin : session.origin ≤ session.pool.next

/-- A move after which all that clients rely on is kept. -/
structure Moved (session : Session σ) (event : Event) (later : Session σ) : Prop where
  kept : later.Kept
  shows : session.Shows later event
  next_le : session.pool.next ≤ later.pool.next

variable {session : Session σ} {before after : List Holder} {lease : Lease} {later : Pool σ}

omit [BackingStore σ] [PageKeeper σ] in
theorem leases_bare (mine : session.holders = before ++ .bare lease :: after) :
    session.leases = before.filterMap Holder.lease? ++ lease :: after.filterMap Holder.lease? := by
  rw [leases, mine, List.filterMap_append]
  rfl

omit [BackingStore σ] [PageKeeper σ] in
theorem leases_guarded {guard : Guard} (mine : session.holders = before ++ .guarded guard :: after)
    (given : guard.lease = some lease) :
    session.leases = before.filterMap Holder.lease? ++ lease :: after.filterMap Holder.lease? := by
  have shown : (Holder.guarded guard).lease? = some lease := given
  rw [leases, mine, List.filterMap_append, List.filterMap_cons_some shown]

omit [BackingStore σ] [PageKeeper σ] in
theorem leases_released {guard : Guard} (mine : session.holders = before ++ .guarded guard :: after)
    (gone : guard.lease = none) :
    session.leases = before.filterMap Holder.lease? ++ after.filterMap Holder.lease? := by
  have shown : (Holder.guarded guard).lease? = none := gone
  rw [leases, mine, List.filterMap_append, List.filterMap_cons_none shown]

theorem Kept.of_sound (kept : session.Kept) {holders : List Holder} {borrowed : List Lease} {event : Event}
    (same : holders.filterMap Holder.lease? = borrowed) (sound : Pool.Sound borrowed (fun _ => 0) later)
    (shows : session.Shows { session with pool := later, holders } event) (next : later.next = session.pool.next) :
    session.Moved event { session with pool := later, holders } := by
  refine ⟨⟨?_, by rw [next]; exact kept.issued, by rw [next]; exact kept.origin⟩, shows, UInt32.le_of_eq next.symm⟩
  change Pool.Sound (holders.filterMap Holder.lease?) _ _
  rw [same]
  exact sound

theorem Kept.quiet (kept : session.Kept) (moved : Pool.Quiet (owedBy session.leases) (fun _ => 0) session.pool later)
    (next : later.next = session.pool.next) : session.Moved .quiet { session with pool := later } :=
  kept.of_sound rfl (kept.sound.quiet moved) moved.lasting next

theorem Kept.lent (kept : session.Kept) (clean : lease.dirty = false)
    (moved : Pool.Quiet (owedBy session.leases) (Pool.one lease.page) session.pool later)
    (resident : later.residents[lease.page]? = some lease.frame) :
    Pool.Sound (lease :: session.leases) (fun _ => 0) later :=
  (kept.sound.quiet moved).hand_over (fun _ => rfl) clean resident

theorem Kept.written {holders : List Holder} {front back : List Lease} (kept : session.Kept)
    (mine : session.leases = front ++ lease :: back) {change : Page → Page}
    (done : Pool.overwriteFrame lease.frame (fun old => return change old) session.pool = .ok () later)
    (same : holders.filterMap Holder.lease? = front ++ { lease with dirty := true } :: back) :
    session.Moved (.changed lease.page (change (session.pool.visible lease.page)))
      { session with pool := later, holders } := by
  have sound := kept.sound
  rw [mine] at sound
  obtain ⟨found, outcome, sound_later, ⟨visible, firm⟩, residents, next⟩ := sound.write_leased change
  obtain rfl : found = later := by
    have both := outcome.symm.trans done
    cases both
    rfl
  refine kept.of_sound same sound_later ⟨visible, fun other before => ?_⟩ next
  rw [Firm, mine] at before
  rw [Firm, leases, same]
  exact firm other before

theorem Kept.given_back {holders : List Holder} {front back : List Lease} (kept : session.Kept)
    (mine : session.leases = front ++ lease :: back) {dirty answer : Bool}
    (marked : lease.dirty = true → dirty = true)
    (done : Pool.unpin lease.page dirty session.pool = .ok answer later)
    (same : holders.filterMap Holder.lease? = front ++ back) :
    session.Moved .quiet { session with pool := later, holders } := by
  have sound := kept.sound
  rw [mine] at sound
  obtain ⟨found, outcome, sound_later, lasting, residents, next⟩ := sound.unlease marked
  obtain rfl : found = later := by
    have both := outcome.symm.trans done
    cases both
    rfl
  refine kept.of_sound same sound_later ?_ next
  rw [Shows, Lasts, mine, leases, same]
  exact lasting

theorem Kept.made {holder : Holder} (kept : session.Kept) {page : PageId} {id : FrameId}
    (done : Pool.new session.pool = .ok (page, id) later)
    (lent : holder.lease? = some { page, frame := id }) :
    session.Moved (.made page) { session with
      pool := later
      holders := holder :: session.holders
      issued := page :: session.issued } := by
  have made := kept.sound.coherent.kept.new
  rw [done] at made
  obtain ⟨quiet, number, next, room, resident⟩ := made.quiet_ok kept.sound.coherent
  have less := Pool.lt_succ_of_room room
  have sound : Pool.Sound (⟨page, id, false⟩ :: session.leases) (fun _ => 0) later :=
    kept.lent rfl quiet resident
  have more : session.pool.next ≤ later.next := by
    rw [next]
    exact UInt32.le_of_lt less
  have owing : owedBy ((holder :: session.holders).filterMap Holder.lease?) = owedBy session.leases := by
    rw [List.filterMap_cons_some lent]
    exact owedBy_clean rfl
  obtain ⟨firm, blank⟩ := kept.sound.coherent.next_firm number
  obtain ⟨still, same⟩ := quiet.lasting page firm
  refine ⟨⟨?_, ?_, UInt32.le_trans kept.origin more⟩, ⟨?_, ?_, ?_, ?_, same.trans blank, ?_⟩, more⟩
  · change Pool.Sound ((holder :: session.holders).filterMap Holder.lease?) _ _
    rw [List.filterMap_cons_some lent]
    exact sound
  · intro old member
    rw [next]
    rcases List.mem_cons.mp member with rfl | member
    · rwa [number]
    · exact UInt32.lt_trans (kept.issued old member) less
  · exact quiet.coherent.kept.isValid resident
  · rw [number]
    exact kept.origin
  · rw [number]
    exact kept.issued
  · rw [Firm, leases, owing]
    exact still
  · rw [Lasts, leases, leases, owing]
    exact quiet.lasting

theorem Kept.fetched {holder : Holder} (kept : session.Kept) {page : PageId} {id : FrameId}
    (done : Pool.fetch page session.pool = .ok id later)
    (lent : holder.lease? = some { page, frame := id }) :
    session.Moved .quiet { session with pool := later, holders := holder :: session.holders } := by
  have fetched := kept.sound.coherent.kept.fetch page
  rw [done] at fetched
  obtain ⟨quiet, next, resident, known⟩ := fetched.quiet_ok kept.sound.coherent
  have sound : Pool.Sound (⟨page, id, false⟩ :: session.leases) (fun _ => 0) later :=
    kept.lent rfl quiet resident
  refine kept.of_sound (List.filterMap_cons_some lent) sound ?_ next
  rw [Shows, Lasts, leases, leases, List.filterMap_cons_some lent, owedBy_clean rfl]
  exact quiet.lasting

theorem Kept.deleted (kept : session.Kept) {page : PageId}
    (done : Pool.delete page session.pool = .ok true later) :
    session.Moved (.deleted page) { session with pool := later } := by
  have deleted := kept.sound.coherent.kept.delete page
  rw [done] at deleted
  have reverts := deleted.reverts kept.sound.coherent
  refine kept.of_sound rfl ⟨reverts.coherent, fun other => ?_, kept.sound.placed_later reverts.stays⟩
    ⟨reverts.visible, reverts.firm, reverts.firm_iff⟩ reverts.next
  rw [reverts.pins]
  exact kept.sound.pins other

theorem Kept.marked (kept : session.Kept) (mine : session.holders = before ++ .bare lease :: after)
    (done : Pool.setDirty lease.frame session.pool = .ok () later) :
    session.Moved .quiet { session with pool := later } := by
  have member : lease ∈ session.leases := by
    rw [leases_bare mine]
    exact List.mem_append_right _ List.mem_cons_self
  obtain ⟨found, outcome, sound, lasting, next⟩ := kept.sound.mark_leased member
  obtain rfl : found = later := by
    have both := outcome.symm.trans done
    cases both
    rfl
  exact kept.of_sound rfl sound lasting next

theorem Kept.not_unpinned (kept : session.Kept) {page : PageId} {dirty answer : Bool}
    (nobody : ∀ lease ∈ session.leases, lease.page ≠ page)
    (done : Pool.unpin page dirty session.pool = .ok answer later) :
    session.Moved .quiet { session with pool := later } := by
  have free : session.pool.pinsOf page = 0 := by
    rw [kept.sound.pins, Nat.add_zero, leased, List.countP_eq_zero]
    intro lease member
    simpa using nobody lease member
  have unpinned := kept.sound.coherent.kept.unpin page dirty
  rw [done] at unpinned
  cases unpinned with
  | absent => exact kept.quiet kept.sound.coherent.quiet rfl
  | unpinned => exact kept.quiet kept.sound.coherent.quiet rfl
  | released seat pinned =>
    rw [seat.pinsOf] at free
    omega

theorem Kept.upgraded (kept : session.Kept) {guard : Guard}
    (mine : session.holders = before ++ .guarded guard :: after) (access : Access) :
    session.Moved .quiet { session with holders := before ++ .guarded (guard.upgrade access) :: after } := by
  have same : (before ++ .guarded (guard.upgrade access) :: after).filterMap Holder.lease? = session.leases := by
    rw [leases, mine, List.filterMap_append, List.filterMap_append]
    rfl
  refine kept.of_sound same kept.sound ?_ rfl
  rw [Shows, Lasts, leases, leases, same]
  exact .refl _ _

theorem Kept.released (kept : session.Kept) {guard released : Guard}
    (mine : session.holders = before ++ .guarded guard :: after)
    (done : guard.release session.pool = .ok released later) :
    session.Moved .quiet { session with pool := later, holders := before ++ .guarded released :: after } := by
  obtain ⟨gone, outcome⟩ := unpin_of_release done
  have rest : (before ++ .guarded released :: after).filterMap Holder.lease? =
      before.filterMap Holder.lease? ++ after.filterMap Holder.lease? := by
    have shown : (Holder.guarded released).lease? = none := gone
    rw [List.filterMap_append, List.filterMap_cons_none shown]
  rcases outcome with ⟨nothing, rfl⟩ | ⟨lease, answer, given, unpinned⟩
  · have same := rest.trans (leases_released mine nothing).symm
    refine kept.of_sound same kept.sound ?_ rfl
    rw [Shows, Lasts, leases, leases, same]
    exact .refl _ _
  · exact kept.given_back (leases_guarded mine given) id unpinned rest

theorem Kept.disturbed (kept : session.Kept) (disk : Worker σ) (usable : Usable disk.store)
    (abides : ∀ page, Abides held Loose session.pool.disk.store disk.store page) :
    session.Moved .quiet { session with pool := { session.pool with disk } } := by
  have coherent := kept.sound.coherent
  have books : Pool.Bookkept [] { session.pool with disk } :=
    coherent.kept.of_same rfl rfl rfl rfl (UInt32.le_refl _)
  have ends : Pool.Coherent (owedBy session.leases) [] { session.pool with disk } ∧
      Pool.Lasting (owedBy session.leases) (owedBy session.leases) session.pool { session.pool with disk } :=
    coherent.of_same books rfl rfl (UInt32.le_refl _) usable abides
  exact kept.quiet ⟨ends.1, ends.2, fun _ => rfl, Pool.stays_of_residents rfl⟩ rfl

theorem Kept.moved {event : Event} {next : Session σ} (kept : session.Kept)
    (step : session.Step event next) : session.Moved event next := by
  cases step with
  | new done => exact kept.made done rfl
  | newGuard done fresh =>
    obtain ⟨page, id, made, rfl⟩ := new_of_newGuard done
    cases fresh
    exact kept.made made rfl
  | fetch done => exact kept.fetched done rfl
  | fetchGuard done =>
    obtain ⟨id, fetched, rfl⟩ := fetch_of_fetchGuard done
    exact kept.fetched fetched rfl
  | write mine done =>
    refine kept.written (leases_bare mine) done ?_
    rw [List.filterMap_append]
    rfl
  | mark mine done => exact kept.marked mine done
  | unpin mine marked done =>
    refine kept.given_back (leases_bare mine) marked done ?_
    rw [List.filterMap_append]
  | unpinAgain nobody done => exact kept.not_unpinned nobody done
  | modify mine given done =>
    obtain ⟨written, rfl⟩ := write_of_modify given done
    refine kept.written (leases_guarded mine given) written ?_
    rw [List.filterMap_append]
    rfl
  | upgrade mine access => exact kept.upgraded mine access
  | release mine done => exact kept.released mine done
  | @flush page later done =>
    have flushed := kept.sound.coherent.kept.flush page
    rw [done] at flushed
    obtain ⟨quiet, next⟩ := flushed.quiet_ok kept.sound.coherent
    exact kept.quiet quiet next
  | flushAll done =>
    obtain ⟨quiet, next⟩ := kept.sound.coherent.flushEach _ (.inl done)
    exact kept.quiet quiet next
  | delete resident done => exact kept.deleted done
  | @deleteAbsent page later absent done =>
    obtain ⟨kept_later, -, more⟩ := kept.deleted done
    have deleted := kept.sound.coherent.kept.delete page
    rw [done] at deleted
    exact ⟨kept_later, (deleted.reverts kept.sound.coherent).lasting absent, more⟩
  | @deletePinned page later done =>
    have deleted := kept.sound.coherent.kept.delete page
    rw [done] at deleted
    obtain ⟨quiet, next⟩ := deleted.quiet kept.sound.coherent
    exact kept.quiet quiet next
  | failed failed =>
    obtain ⟨quiet, next⟩ := kept.sound.coherent.failed failed
    exact kept.quiet quiet next
  | disturbed disk usable abides => exact kept.disturbed disk usable abides

theorem Kept.step {event : Event} {next : Session σ} (kept : session.Kept)
    (step : session.Step event next) : next.Kept ∧ session.Shows next event :=
  ⟨(kept.moved step).kept, (kept.moved step).shows⟩

theorem Kept.makes (kept : session.Kept) {event : Event} {next : Session σ} (step : session.Step event next) :
    next.origin = session.origin ∧
      ∀ page ∈ next.issued, page ∈ session.issued ∨ session.pool.next ≤ page.number := by
  have young : ∀ {page : PageId} {id : FrameId} {later : Pool σ}, Pool.new session.pool = .ok (page, id) later →
      ∀ other ∈ page :: session.issued, other ∈ session.issued ∨ session.pool.next ≤ other.number := by
    intro page id later done other member
    have made := kept.sound.coherent.kept.new
    rw [done] at made
    obtain ⟨_, number, _⟩ := made.quiet_ok kept.sound.coherent
    rcases List.mem_cons.mp member with rfl | member
    · exact .inr (UInt32.le_of_eq number.symm)
    · exact .inl member
  cases step with
  | new done => exact ⟨rfl, young done⟩
  | newGuard done fresh =>
    obtain ⟨page, id, made, rfl⟩ := new_of_newGuard done
    cases fresh
    exact ⟨rfl, young made⟩
  | _ => exact ⟨rfl, fun _ => .inl⟩

/-! ### Whole runs -/

theorem visible_created {size k : Nat} {store : σ} {pool : Pool σ} (made : Pool.create size k store = .ok pool)
    (page : PageId) : pool.visible page = held store page := by
  obtain ⟨next, replacer, -, -, rfl⟩ := Pool.create_eq made
  exact Pool.visible_absent (Pool.frameOf?_absent Std.TreeMap.getElem?_emptyc)

theorem created_firm {size k : Nat} {store : σ} {pool : Pool σ} {origin : UInt32} (intact : Intact store)
    (made : Pool.create size k store = .ok pool) (page : PageId) : Firm { pool, origin } page := by
  obtain ⟨next, replacer, -, -, rfl⟩ := Pool.create_eq made
  exact (Pool.firm_absent (Pool.frameOf?_absent Std.TreeMap.getElem?_emptyc)).mpr (intact.tight page)

theorem created_kept {size k : Nat} {store : σ} {pool : Pool σ} {origin : UInt32} (intact : Intact store)
    (bounded : BackingStore.bound store = .ok origin) (made : Pool.create size k store = .ok pool) :
    Kept { pool, origin } := by
  refine ⟨Pool.created_sound intact made, List.forall_mem_nil _, ?_⟩
  obtain ⟨next, replacer, number, -, rfl⟩ := Pool.create_eq made
  cases bounded.symm.trans number
  exact UInt32.le_refl _

theorem Run.kept {store : σ} {events : List Event} (run : Run store events session) : session.Kept := by
  induction run with
  | opened intact bounded made => exact created_kept intact bounded made
  | moved before step ih => exact (ih.step step).1

omit [PageKeeper σ] in
/-- What an event makes of the content of a page that is not deleted. -/
def rewritten (page : PageId) (content : Page) : Event → Page
  | .changed changed bytes => if changed = page then bytes else content
  | _ => content

/-- A page that is not deleted is firm, and shows what was last written to it. -/
theorem Run.visible {store : σ} {events : List Event} (run : Run store events session) {page : PageId}
    (stays : ∀ event ∈ events, event ≠ .deleted page) :
    session.Firm page ∧ session.pool.visible page = events.foldl (rewritten page) (held store page) := by
  induction run with
  | opened intact bounded made => exact ⟨created_firm intact made page, visible_created made page⟩
  | @moved events event session later before step ih =>
    obtain ⟨firm, seen⟩ := ih fun old member => stays old (List.mem_append_left _ member)
    rw [List.foldl_append, ← seen]
    have shows := (before.kept.step step).2
    have differ := stays event (List.mem_append_right _ List.mem_cons_self)
    cases event with
    | quiet => exact shows page firm
    | changed changed bytes => exact ⟨shows.2 page (.inr firm), shows.1 page⟩
    | deleted gone =>
      have other : gone ≠ page := fun same => differ (by rw [same])
      exact ⟨shows.2.1 page other firm, (shows.1 page).trans (if_neg other)⟩
    | made made => exact shows.2.2.2.2.2 page firm

/-- What clients may rely on in a session. -/
structure Unlost (store : σ) (events : List Event) (session : Session σ) : Prop where
  /-- Every move shows what it should. -/
  shows : ∀ event later, session.Step event later → session.Shows later event
  written : ∀ page, (∀ event ∈ events, event ≠ .deleted page) →
    session.Firm page ∧ session.pool.visible page = events.foldl (rewritten page) (held store page)
  /-- Who fetches a page sees it. -/
  fetched : ∀ page id later, Pool.fetch page session.pool = .ok id later → session.Firm page →
    ∃ frame, later.frames[id.index]? = some frame ∧ frame.page = session.pool.visible page
  /-- A page that is not firm shows zeros. -/
  faded : ∀ page, ¬ session.Firm page → session.pool.visible page = Page.zero
  /-- In memory all pages are firm. -/
  tight : Tight σ → ∀ page, session.Firm page

/-- Nothing that was written is lost, and pages change by nothing but what clients do to them, as long as they are
firm; and only a page that was deleted may not be. -/
theorem Run.nothing_lost {store : σ} {events : List Event} (run : Run store events session) :
    Unlost store events session where
  shows event later step := (run.kept.step step).2
  written page stays := run.visible stays
  fetched page id later done firm := by
    have fetched := run.kept.sound.coherent.kept.fetch page
    rw [done] at fetched
    obtain ⟨quiet, next, resident, known⟩ := fetched.quiet_ok run.kept.sound.coherent
    obtain ⟨frame, history, seat, shown⟩ := Pool.visible_of_resident quiet.coherent.kept resident
    exact ⟨frame, seat.frame_at, by rw [← shown, (quiet.lasting page firm).2]⟩
  faded page lost := (run.kept.sound.coherent.faded lost).1
  tight := run.kept.sound.coherent.firm_of_tight

/-- A client makes a page, fills it and gives it back. -/
theorem Run.stocked {store : σ} {events : List Event} (run : Run store events session) {page : PageId} {id : FrameId}
    {bytes : Page} {answer : Bool} {made filled later : Pool σ} (new : Pool.new session.pool = .ok (page, id) made)
    (fill : Pool.overwriteFrame id (fun _ => return bytes) made = .ok () filled)
    (unpin : Pool.unpin page true filled = .ok answer later) :
    Run store (events ++ [.made page] ++ [.changed page bytes] ++ [.quiet])
      { session with pool := later, issued := page :: session.issued } := by
  let held : Session σ := { session with
    pool := made
    holders := .bare { page, frame := id } :: session.holders
    issued := page :: session.issued }
  have written : held.Step (.changed page bytes) _ :=
    @Step.write σ _ _ held [] session.holders { page, frame := id } (fun _ => bytes) filled rfl fill
  refine ((run.moved (.new new)).moved written).moved ?_
  exact @Step.unpin σ _ _ _ [] session.holders { page, frame := id, dirty := true } true answer later rfl
    (fun _ => rfl) unpin

/-- A page whose write could not be synced is deleted, and another one is changed and evicted. This one is as it was
written; the deleted one shows zeros first, and its old bytes once the file has grown over them. -/
theorem nothing_lost_unsynced : ∃ (store : FileStore) (early late : Session FileStore),
    Run store [.made ⟨0⟩, .changed ⟨0⟩ (.filled pageSize 7), .quiet, .quiet, .deleted ⟨0⟩] early ∧
      early.pool.visible ⟨0⟩ = Page.zero ∧
      Run store [.made ⟨0⟩, .changed ⟨0⟩ (.filled pageSize 7), .quiet, .quiet, .deleted ⟨0⟩, .made ⟨1⟩,
        .changed ⟨1⟩ (.filled pageSize 9), .quiet, .made ⟨2⟩] late ∧
      late.pool.visible ⟨1⟩ = .filled pageSize 9 ∧ late.pool.visible ⟨0⟩ = .filled pageSize 7 := by
  obtain ⟨store, start, first, filled, idle, refused, gone, second, changed, given, last, bare, end_zero, made, new,
      fill, unpin, flush, resident, delete, new_second, fill_second, unpin_second, new_last, before, after⟩ :
      ∃ (store : FileStore) (start first filled idle refused gone second changed given last : Pool FileStore),
        store.file = {} ∧ store.handle.bound = 0 ∧ Pool.create 1 2 store = .ok start ∧
        Pool.new start = .ok (⟨0⟩, ⟨0⟩) first ∧
        Pool.overwriteFrame ⟨0⟩ (fun _ => return .filled pageSize 7) first = .ok () filled ∧
        Pool.unpin ⟨0⟩ true filled = .ok true idle ∧
        (Pool.Call.flush ⟨0⟩).run idle = .error (.error (.io (.described "Input/output error (os error 5)"))) refused ∧
        refused.residents[(⟨0⟩ : PageId)]? = some ⟨0⟩ ∧ Pool.delete ⟨0⟩ refused = .ok true gone ∧
        Pool.new gone = .ok (⟨1⟩, ⟨0⟩) second ∧
        Pool.overwriteFrame ⟨0⟩ (fun _ => return .filled pageSize 9) second = .ok () changed ∧
        Pool.unpin ⟨1⟩ true changed = .ok true given ∧ Pool.new given = .ok (⟨2⟩, ⟨0⟩) last ∧
        gone.visible ⟨0⟩ = Page.zero ∧ last.visible ⟨0⟩ = FileStore.heldPage
          ((store.met.marred ⟨0⟩ (.filled pageSize 7) pageSize).met.written ⟨1⟩ (.filled pageSize 9)) ⟨0⟩ :=
    ⟨⟨Volume.setFile { troubles := [some ⟨.described "Input/output error (os error 5)", pageSize⟩] } "pages" {},
      ⟨"pages", 0⟩⟩, _, _, _, _, _, _, _, _, _, _, FileStore.file_setFile .., rfl, rfl, rfl, rfl, rfl, rfl, rfl, rfl, rfl,
      rfl, rfl, rfl, rfl, rfl⟩
  have bounded : store.Bounded := ⟨by rw [bare]; decide, fun _ _ => by rw [FileStore.filePage, bare]; rfl⟩
  have intact : Intact store := ⟨bounded, fun _ loose => loose.2 (bounded.zero _ (by rw [bare]; exact Nat.zero_le _))⟩
  have opened : Run store [] ⟨start, [], [], 0⟩ := .opened intact (congrArg Except.ok end_zero) made
  have early := ((opened.stocked new fill unpin).moved (.failed flush)).moved (.delete resident delete)
  have late := (early.stocked new_second fill_second unpin_second).moved (.new new_last)
  refine ⟨store, _, _, early, before, late, (late.nothing_lost.written ⟨1⟩ (by simp)).2, ?_⟩
  exact after.trans ((FileStore.heldPage_written_below rfl (by decide)).trans
    (FileStore.filePage_marred_self (Nat.le_refl _)))

end Session

end PagedIndex
