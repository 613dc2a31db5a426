import Mathlib
import PagedIndex.Proofs.Pool.Journaling
import PagedIndex.Proofs.Pool.Requests

/-!
# Audits

The caller of a pool keeps a receipt of every call, and the store a journal of every request. Between them they say
what the counters of the pool have to show, and how many pages have to be in it.
-/

namespace PagedIndex

open Pool (Call)

variable {σ : Type}

/-! ### Receipts -/

def Pool.Call.sought? : Call → Option PageId
  | .fetch page | .fetchGuard page _ => some page
  | _ => none

def Pool.Call.makes : Call → Bool
  | .new | .newGuard => true
  | _ => false

/-- A call as its caller sees it. -/
structure Receipt where
  call : Call
  answer : Except Error Bool
  /-- The number of the next new page, before the call. -/
  next : UInt32
  /-- The pages in the pool, before the call and after it. -/
  before : List PageId
  after : List PageId

def Pool.receipt (pool : Pool σ) (call : Call) (answer : Except Error Bool) (later : Pool σ) : Receipt :=
  ⟨call, answer, pool.next, pool.residents.keys, later.residents.keys⟩

namespace Receipt

/-- A fetch of a page that the pool knows. -/
def isLookup (receipt : Receipt) : Bool :=
  receipt.call.sought?.any fun page => page.isValid && page.number < receipt.next

def isHit (receipt : Receipt) : Bool := receipt.isLookup && receipt.call.sought?.any receipt.before.contains

def isMiss (receipt : Receipt) : Bool := receipt.isLookup && !receipt.call.sought?.any receipt.before.contains

/-- A fetch that was not answered with an invalid page id. -/
def isHeard (receipt : Receipt) : Bool :=
  match receipt.answer with
  | .error (.invalidPageId _) => false
  | _ => receipt.call.sought?.isSome

def isMaking (receipt : Receipt) : Bool := receipt.call.makes && receipt.answer.isOk

def isDeletion (receipt : Receipt) : Bool :=
  match receipt.call, receipt.answer with
  | .delete _, .ok said => said
  | _, _ => false

/-- A deletion of a page that was in the pool. -/
def isDrop (receipt : Receipt) : Bool :=
  match receipt.call with
  | .delete page => receipt.isDeletion && receipt.before.contains page
  | _ => false

/-- A page is gone that nobody deleted. -/
def isEviction (receipt : Receipt) : Bool :=
  match receipt.call with
  | .delete _ => false
  | _ => receipt.before.any fun page => !receipt.after.contains page

def tally (receipt : Receipt) : Tally where
  hits := receipt.isHit.toNat
  misses := receipt.isMiss.toNat
  evictions := receipt.isEviction.toNat
  deletes := receipt.isDeletion.toNat
  makings := receipt.isMaking.toNat
  drops := receipt.isDrop.toNat

def total (receipts : List Receipt) : Tally where
  hits := receipts.countP isHit
  misses := receipts.countP isMiss
  evictions := receipts.countP isEviction
  deletes := receipts.countP isDeletion
  makings := receipts.countP isMaking
  drops := receipts.countP isDrop

theorem countP_cons (counts : Receipt → Bool) (receipt : Receipt) (receipts : List Receipt) :
    (receipt :: receipts).countP counts = receipts.countP counts + (counts receipt).toNat := by
  rw [List.countP_cons]
  cases counts receipt <;> rfl

theorem total_cons (receipt : Receipt) (receipts : List Receipt) :
    total (receipt :: receipts) = total receipts + receipt.tally := by
  simp only [total, countP_cons]
  rfl

theorem lookups_eq (receipts : List Receipt) :
    (total receipts).hits + (total receipts).misses = receipts.countP isLookup := by
  induction receipts with
  | nil => rfl
  | cons receipt rest ih =>
    have both : receipt.isHit.toNat + receipt.isMiss.toNat = receipt.isLookup.toNat := by
      unfold isHit isMiss
      cases receipt.isLookup <;> cases receipt.call.sought?.any receipt.before.contains <;> rfl
    rw [total_cons, countP_cons, ← ih, ← both]
    simp only [Tally.add_hits, Tally.add_misses, tally]
    omega

end Receipt

namespace Pool

variable {α β : Type} {pool later : Pool σ} {page : PageId} {call : Call} {answer : Except Error Bool}

/-- An action that answers with a value of what another one answers with is that action. -/
theorem Answers.of_discard {action : Action σ α} {value : α → β} {answer : Except Error β}
    (answered : Answers (action >>= fun found => pure (value found)) pool answer later) :
    ∃ inner, Answers action pool inner later ∧ answer = inner.map value := by
  rcases answered.of_bind with ⟨found, _, ran, last⟩ | ⟨error, failed, rfl⟩
  · cases answer <;> cases last
    exact ⟨.ok found, ran, rfl⟩
  · exact ⟨.error error, failed, rfl⟩

theorem keys_contains (pool : Pool σ) (page : PageId) : pool.residents.keys.contains page = pool.contains page := by
  rw [Bool.eq_iff_iff, List.contains_iff_mem, Std.TreeMap.mem_keys]
  rfl

def departed (pool later : Pool σ) : Bool := pool.residents.keys.any fun page => !later.residents.keys.contains page

/-! ### What receipts tell -/

theorem tally_of_makes (makes : call.makes = true) : (pool.receipt call answer later).tally =
    { evictions := (departed pool later).toNat, makings := answer.isOk.toNat } := by
  cases call <;> first | rfl | cases makes

theorem tally_of_seeks (seeks : call.sought? = some page) : (pool.receipt call answer later).tally =
    { hits := (pool.knows page && pool.contains page).toNat
      misses := (pool.knows page && !pool.contains page).toNat
      evictions := (departed pool later).toNat } := by
  rw [← keys_contains]
  cases call <;> cases seeks <;> rfl

theorem tally_of_delete {said : Bool} : (pool.receipt (.delete page) (.ok said) later).tally =
    { deletes := said.toNat, drops := (said && pool.contains page).toNat } := by
  rw [← keys_contains]
  rfl

theorem tally_of_other (makes : call.makes = false) (seeks : call.sought? = none)
    (deletes : ∀ page, call ≠ .delete page) :
    (pool.receipt call answer later).tally = { evictions := (departed pool later).toNat } := by
  cases call with
  | new | newGuard => cases makes
  | fetch | fetchGuard => cases seeks
  | delete page => exact absurd rfl (deletes page)
  | _ => rfl

theorem Call.requests_of_makes (makes : call.makes = true) : call.requests pool = pool.clearing := by
  cases call <;> first | rfl | cases makes

theorem Call.requests_of_seeks (seeks : call.sought? = some page) : call.requests pool = pool.reading page := by
  cases call <;> cases seeks <;> rfl

variable [BackingStore σ] {requests : List Request} {tally : Tally} {gone came : Option PageId}

theorem Charged.departed (charged : Charged pool requests tally gone came later) :
    (Pool.departed pool later).toNat = gone.toList.length := by
  cases gone with
  | none =>
    have nothing : Pool.departed pool later = false := by
      refine List.any_eq_false.mpr fun page member => ?_
      have there : later.contains page = true :=
        (charged.contains page).mpr (.inl ⟨Std.TreeMap.mem_keys.mp member, nofun⟩)
      rw [keys_contains, there]
      decide
    rw [nothing]
    rfl
  | some page =>
    have there := charged.leaves page rfl
    have away : later.contains page = false := by
      rw [← Bool.not_eq_true, charged.contains]
      rintro (⟨-, differ⟩ | same)
      · exact differ rfl
      · cases there.symm.trans (charged.enters page same)
    have one : Pool.departed pool later = true :=
      List.any_eq_true.mpr ⟨page, Std.TreeMap.mem_keys.mpr there, by rw [keys_contains, away]; rfl⟩
    rw [one]
    rfl

/-! ### What each call is charged with -/

theorem Call.answers_new (makes : call.makes = true) (answered : Answers call.answering pool answer later) :
    ∃ inner, Answers Pool.new pool inner later ∧ answer = inner.map fun _ => true := by
  cases call with
  | new =>
    obtain ⟨_, run, rfl⟩ := answered.of_discard
    obtain ⟨inner, made, rfl⟩ := run.of_discard
    exact ⟨inner, made, by cases inner <;> rfl⟩
  | newGuard =>
    obtain ⟨_, run, rfl⟩ := answered.of_discard
    obtain ⟨_, guarded, rfl⟩ := run.of_discard
    obtain ⟨inner, made, rfl⟩ := guarded.of_discard
    exact ⟨inner, made, by cases inner <;> rfl⟩
  | _ => cases makes

theorem Call.answers_fetch (seeks : call.sought? = some page) (answered : Answers call.answering pool answer later) :
    ∃ inner, Answers (Pool.fetch page) pool inner later ∧ answer = inner.map fun _ => true := by
  cases call with
  | fetch other =>
    cases seeks
    obtain ⟨_, run, rfl⟩ := answered.of_discard
    obtain ⟨inner, fetched, rfl⟩ := run.of_discard
    exact ⟨inner, fetched, by cases inner <;> rfl⟩
  | fetchGuard other access =>
    cases seeks
    obtain ⟨_, run, rfl⟩ := answered.of_discard
    obtain ⟨_, guarded, rfl⟩ := run.of_discard
    obtain ⟨inner, fetched, rfl⟩ := guarded.of_discard
    exact ⟨inner, fetched, by cases inner <;> rfl⟩
  | _ => cases seeks

def Settled (pool : Pool σ) (call : Call) (answer : Except Error Bool) (later : Pool σ) : Prop :=
  ∃ gone came, Charged pool (call.requests pool) (pool.receipt call answer later).tally gone came later

theorem Bookkept.settled_new (kept : Bookkept [] pool) (makes : call.makes = true)
    (answered : Answers call.answering pool answer later) : Settled pool call answer later := by
  obtain ⟨inner, ran, rfl⟩ := Call.answers_new makes answered
  have made := kept.new
  unfold Settled
  rw [Call.requests_of_makes makes, tally_of_makes makes]
  cases inner with
  | ok found =>
    rw [show Pool.new pool = .ok found later from ran] at made
    obtain ⟨gone, came, charged⟩ := made.charged_ok kept
    rw [charged.departed]
    exact ⟨gone, came, charged⟩
  | error error =>
    rw [show Pool.new pool = .error (.error error) later from ran] at made
    have charged := made.charged_error
    rw [charged.departed]
    exact ⟨none, none, charged⟩

theorem Bookkept.settled_fetch (kept : Bookkept [] pool) (seeks : call.sought? = some page)
    (answered : Answers call.answering pool answer later) : Settled pool call answer later := by
  obtain ⟨inner, ran, rfl⟩ := Call.answers_fetch seeks answered
  have fetched := kept.fetch page
  unfold Settled
  rw [Call.requests_of_seeks seeks, tally_of_seeks seeks]
  cases inner with
  | ok found =>
    rw [show Pool.fetch page pool = .ok found later from ran] at fetched
    obtain ⟨known, gone, came, charged⟩ := fetched.charged_ok
    rw [charged.departed, known]
    exact ⟨gone, came, charged⟩
  | error error =>
    rw [show Pool.fetch page pool = .error (.error error) later from ran] at fetched
    cases known : pool.knows page with
    | true =>
      obtain ⟨away, gone, charged⟩ := fetched.charged_error known
      rw [charged.departed, away]
      exact ⟨gone, none, charged⟩
    | false =>
      have unknown : ¬ (page.isValid = true ∧ page.number < pool.next) := by
        rw [← knows_iff, known]
        decide
      cases (fetch_unknown unknown).symm.trans ran
      have charged := charged_nothing pool
      rw [charged.departed, reading_of_unknown known]
      exact ⟨none, none, charged⟩

theorem Bookkept.settled_delete (kept : Bookkept [] pool)
    (answered : Answers (Call.answering (.delete page)) pool answer later) :
    Settled pool (.delete page) answer later := by
  have deleted := kept.delete page
  cases answer with
  | ok said =>
    rw [show Pool.delete page pool = .ok said later from answered] at deleted
    obtain ⟨gone, charged⟩ := deleted.charged
    unfold Settled
    rw [tally_of_delete]
    exact ⟨gone, none, charged⟩
  | error error =>
    rw [show Pool.delete page pool = .error (.error error) later from answered] at deleted
    cases deleted

theorem Charged.settled (charged : Charged pool (call.requests pool) {} none none later) (makes : call.makes = false)
    (seeks : call.sought? = none) (deletes : ∀ page, call ≠ .delete page) : Settled pool call answer later := by
  unfold Settled
  rw [tally_of_other makes seeks deletes, charged.departed]
  exact ⟨none, none, charged⟩

theorem Bookkept.charged_unpin {dirty : Bool} {answer : Except Error Bool} (kept : Bookkept [] pool)
    (answered : Answers (Pool.unpin page dirty) pool answer later) : Charged pool [] {} none none later := by
  have unpinned := kept.unpin page dirty
  cases answer with
  | ok said =>
    rw [show Pool.unpin page dirty pool = .ok said later from answered] at unpinned
    exact charged_unpinned unpinned
  | error error =>
    rw [show Pool.unpin page dirty pool = .error (.error error) later from answered] at unpinned
    cases unpinned

theorem Bookkept.settled (kept : Bookkept [] pool) (counting : call ≠ .forgetStats)
    (answered : Answers call.answering pool answer later) : Settled pool call answer later := by
  cases call with
  | new => exact kept.settled_new rfl answered
  | newGuard => exact kept.settled_new rfl answered
  | fetch page => exact kept.settled_fetch rfl answered
  | fetchGuard page access => exact kept.settled_fetch rfl answered
  | delete page => exact kept.settled_delete answered
  | forgetStats => exact absurd rfl counting
  | unpin page dirty =>
    obtain ⟨_, run, -⟩ := answered.of_discard
    obtain ⟨_, unpinned, -⟩ := run.of_discard
    exact (kept.charged_unpin unpinned).settled rfl rfl nofun
  | flush page =>
    obtain ⟨inner, flushed, -⟩ := answered.of_discard
    have effect := kept.flush page
    cases inner with
    | ok value =>
      rw [show Pool.flush page pool = .ok value later from flushed] at effect
      exact effect.charged_ok.1.settled rfl rfl nofun
    | error error =>
      rw [show Pool.flush page pool = .error (.error error) later from flushed] at effect
      exact effect.charged_error.1.settled rfl rfl nofun
  | flushAll =>
    obtain ⟨_, flushed, -⟩ := answered.of_discard
    have charged := kept.charged_flushEach (fun page member => Std.TreeMap.mem_keys.mp member) flushed
    exact charged.settled rfl rfl nofun
  | release guard =>
    obtain ⟨_, run, -⟩ := answered.of_discard
    obtain ⟨said, released, -⟩ := run.of_discard
    have charged : Charged pool [] {} none none later := by
      unfold Guard.release at released
      cases held : guard.lease with
      | none =>
        rw [held] at released
        cases said <;> cases released
        exact charged_nothing _
      | some lease =>
        rw [held] at released
        obtain ⟨_, unpinned, -⟩ := released.of_discard
        exact kept.charged_unpin unpinned
    exact charged.settled rfl rfl nofun

theorem Bookkept.charged_sweep {order : List PageId} {answer : Except Error Unit} (kept : Bookkept [] pool)
    (all : order.Perm pool.residents.keys) (answered : Answers (order.forM Pool.flush) pool answer later) :
    Charged pool (order.flatMap pool.writing) (pool.receipt .flushAll (answer.map fun _ => true) later).tally none none
      later := by
  have present : ∀ page ∈ order, pool.contains page = true := by
    intro page member
    exact Std.TreeMap.mem_keys.mp (all.mem_iff.mp member)
  have charged := kept.charged_flushEach present answered
  rw [tally_of_other rfl rfl (fun _ same => by cases same), charged.departed]
  exact charged

theorem Orderly.answered {action : Action σ α} {answer : Except Error α} (orderly : Orderly pool (action pool))
    (answered : Answers action pool answer later) : Bookkept [] later := by
  unfold Answers at answered
  cases answer <;> rw [answered] at orderly <;> cases orderly <;> assumption

theorem Bookkept.answering_orderly (kept : Bookkept [] pool) (call : Call) : Orderly pool (call.answering pool) := by
  cases call with
  | delete page => exact (kept.delete page).orderly kept
  | _ => exact (kept.call _).discard

/-! ### Runs -/

/-- Pools over a store that keeps a journal, with the receipts of all calls, the latest first. All pages may be flushed
in any order. Whoever has a frame may change it, and the store and its worker may change between calls; the counters are
not reset. -/
inductive Audited : List Receipt → Pool (Journaled σ) → Prop where
  | created {size k : Nat} {store : σ} {pool : Pool (Journaled σ)} (made : create size k ⟨store, []⟩ = .ok pool) :
      Audited [] pool
  | called {receipts : List Receipt} {pool later : Pool (Journaled σ)} {call : Call} {answer : Except Error Bool}
      (before : Audited receipts pool) (counting : call ≠ .forgetStats)
      (answered : Answers call.answering pool answer later) :
      Audited (pool.receipt call answer later :: receipts) later
  | swept {receipts : List Receipt} {pool later : Pool (Journaled σ)} {order : List PageId}
      {answer : Except Error Unit} (before : Audited receipts pool) (all : order.Perm pool.residents.keys)
      (answered : Answers (order.forM Pool.flush) pool answer later) :
      Audited (pool.receipt .flushAll (answer.map fun _ => true) later :: receipts) later
  | rewritten {receipts : List Receipt} {pool : Pool (Journaled σ)} {id : FrameId} {frame : Frame}
      (before : Audited receipts pool) (frame_at : pool.frames[id.index]? = some frame) (bytes : Page)
      (dirty : Bool) : Audited receipts (pool.place id { frame with page := bytes, dirty })
  | disturbed {receipts : List Receipt} {pool : Pool (Journaled σ)} {disk : Worker (Journaled σ)}
      (before : Audited receipts pool) (silent : disk.journal = pool.disk.journal) :
      Audited receipts { pool with disk }

/-- The counters and the number of pages are what the receipts and the journal come to. -/
structure Reconciled (receipts : List Receipt) (pool : Pool (Journaled σ)) : Prop where
  kept : Bookkept [] pool
  stats : pool.stats = Stats.after {} (Receipt.total receipts) pool.disk.journal
  count : pool.residentCount + (Receipt.total receipts).evictions + (Receipt.total receipts).drops =
    (Receipt.total receipts).makings + pool.disk.journal.countP Entry.isRead

variable {receipts : List Receipt} {book next : Pool (Journaled σ)}

theorem Reconciled.charged {receipt : Receipt} (reconciled : Reconciled receipts book) (kept : Bookkept [] next)
    (charged : Charged book requests receipt.tally gone came next) : Reconciled (receipt :: receipts) next := by
  have grown : ∀ {counts : Entry → Bool}, (∀ request, counts ⟨request, false⟩ = false) →
      next.disk.journal.countP counts =
        book.disk.journal.countP counts + (book.disk.serve requests).1.countP counts := by
    intro counts carried
    rw [charged.disk]
    exact Worker.countP_journal_serve carried requests book.disk
  refine ⟨kept, ?_, ?_⟩
  · rw [charged.stats, reconciled.stats, Stats.after_after, Receipt.total_cons]
    simp only [Stats.after, List.countP_append, grown Entry.not_isRead, grown Entry.not_isWrite]
  · have before := reconciled.count
    have size := charged.size
    have departure := charged.departure
    have arrival := charged.arrival
    rw [Receipt.total_cons, grown Entry.not_isRead]
    simp only [Tally.add_evictions, Tally.add_drops, Tally.add_makings]
    omega

theorem Audited.reconciled (audited : Audited receipts book) : Reconciled receipts book := by
  induction audited with
  | created made =>
    refine ⟨create_bookkept made, ?_, ?_⟩ <;> obtain ⟨next, replacer, -, -, rfl⟩ := create_eq made <;> rfl
  | @called _ _ _ call _ _ counting answered ih =>
    obtain ⟨gone, came, charged⟩ := ih.kept.settled counting answered
    exact ih.charged ((ih.kept.answering_orderly call).answered answered) charged
  | @swept _ _ _ order _ _ all answered ih =>
    exact ih.charged ((ih.kept.flushEach order).answered answered) (ih.kept.charged_sweep all answered)
  | rewritten before frame_at bytes dirty ih => exact ⟨ih.kept.retouch frame_at rfl rfl, ih.stats, ih.count⟩
  | disturbed before silent ih =>
    refine ⟨ih.kept.of_same rfl rfl rfl rfl (UInt32.le_refl _), ?_, ?_⟩
    · rw [silent]
      exact ih.stats
    · rw [silent]
      exact ih.count

/-! ### Fetches that are turned away -/

theorem Fetched.known_error {error : Error} (fetched : Fetched pool page (.error (.error error) later))
    (known : pool.knows page = true) (other : PageId) (same : error = .invalidPageId other) : error.OfStore σ := by
  have serving : error ≠ .schedulerShutdown := by
    rintro rfl
    cases same
  cases fetched with
  | unknown unknown => exact absurd (knows_iff.mp known) unknown
  | refused absent claimed =>
    cases claimed with
    | crowded => cases same
    | unsaved full chosen seat unpinned dirty failed => exact ofStore_of_failed failed serving
  | unread absent claimed failed => exact ofStore_of_failed failed serving

/-- Unless the store says such things itself, a fetch is answered with an invalid page id just for a page that the
pool does not know. -/
theorem Bookkept.heard_eq (kept : Bookkept [] pool) (honest : ∀ page, ¬ Error.OfStore σ (.invalidPageId page))
    (answered : Answers call.answering pool answer later) :
    (pool.receipt call answer later).isHeard = (pool.receipt call answer later).isLookup := by
  unfold Receipt.isHeard Receipt.isLookup receipt
  cases seeks : call.sought? with
  | none => split <;> rfl
  | some page =>
    obtain ⟨inner, ran, rfl⟩ := Call.answers_fetch seeks answered
    change _ = pool.knows page
    cases known : pool.knows page with
    | false =>
      have unknown : ¬ (page.isValid = true ∧ page.number < pool.next) := by
        rw [← knows_iff, known]
        decide
      have refused := fetch_unknown unknown
      cases inner <;> cases refused.symm.trans ran
      rfl
    | true =>
      cases inner with
      | ok found => rfl
      | error error =>
        have fetched := kept.fetch page
        rw [show Pool.fetch page pool = .error (.error error) later from ran] at fetched
        split
        · rename_i other same
          cases same
          exact absurd (fetched.known_error known other rfl) (honest other)
        · rfl

theorem Journaled.ofStore {error : Error} (answered : Error.OfStore (Journaled σ) error) : Error.OfStore σ error := by
  obtain ⟨wanted, store, later, outcome⟩ := answered
  rw [Journaled.execute_eq, Journaled.note] at outcome
  cases plain : (Worker.execute wanted store.store : EStateM.Result Failure σ Page) with
  | ok data next =>
    rw [plain] at outcome
    cases outcome
  | error failure next =>
    rw [plain] at outcome
    cases outcome
    exact ⟨wanted, _, _, plain⟩

theorem Audited.heard (audited : Audited receipts book) (honest : ∀ page, ¬ Error.OfStore σ (.invalidPageId page)) :
    ∀ receipt ∈ receipts, receipt.isHeard = receipt.isLookup := by
  induction audited with
  | created =>
    intro receipt member
    cases member
  | called before counting answered ih =>
    intro receipt member
    rcases List.mem_cons.mp member with rfl | member
    · exact before.reconciled.kept.heard_eq (fun page said => honest page (Journaled.ofStore said)) answered
    · exact ih receipt member
  | @swept _ _ _ _ answer before all answered ih =>
    intro receipt member
    rcases List.mem_cons.mp member with rfl | member
    · unfold Receipt.isHeard
      split <;> rfl
    · exact ih receipt member
  | rewritten before frame_at bytes dirty ih => exact ih
  | disturbed before silent ih => exact ih

/-! ### Accounts -/

structure Small (receipts : List Receipt) (pool : Pool (Journaled σ)) : Prop where
  hits : (Receipt.total receipts).hits < 2 ^ 64
  misses : (Receipt.total receipts).misses < 2 ^ 64
  evictions : (Receipt.total receipts).evictions < 2 ^ 64
  reads : pool.disk.journal.countP Entry.isRead < 2 ^ 64
  writes : pool.disk.journal.countP Entry.isWrite < 2 ^ 64
  deletes : (Receipt.total receipts).deletes < 2 ^ 64

omit [BackingStore σ] in
theorem Small.of_length {pool : Pool (Journaled σ)} (calls : receipts.length < 2 ^ 64)
    (requests : pool.disk.journal.length < 2 ^ 64) : Small receipts pool where
  hits := Nat.lt_of_le_of_lt List.countP_le_length calls
  misses := Nat.lt_of_le_of_lt List.countP_le_length calls
  evictions := Nat.lt_of_le_of_lt List.countP_le_length calls
  reads := Nat.lt_of_le_of_lt List.countP_le_length requests
  writes := Nat.lt_of_le_of_lt List.countP_le_length requests
  deletes := Nat.lt_of_le_of_lt List.countP_le_length calls

/-- What a pool asks of its store is known beforehand, and its counters tell the truth. -/
structure Truthful (receipts : List Receipt) (pool : Pool (Journaled σ)) : Prop where
  /-- The store hears the requests of a call, up to one that it refuses, and nothing else. -/
  submitted : ∀ {call : Call} {answer : Except Error Bool} {later : Pool (Journaled σ)},
    Answers call.answering pool answer later → later.disk.journal = pool.disk.journal ++
      if pool.disk.running then (pool.disk.serve (call.requests pool)).1 else []
  /-- So it does of a flush of all pages, in whatever order. -/
  swept : ∀ {order : List PageId} {answer : Except Error Unit} {later : Pool (Journaled σ)},
    order.Perm pool.residents.keys → Answers (order.forM Pool.flush) pool answer later →
      later.disk.journal = pool.disk.journal ++
        if pool.disk.running then (pool.disk.serve (order.flatMap pool.writing)).1 else []
  writes : pool.stats.writes.toNat = pool.disk.journal.countP Entry.isWrite
  reads : pool.stats.reads.toNat = pool.disk.journal.countP Entry.isRead
  lookups : pool.stats.hits.toNat + pool.stats.misses.toNat = receipts.countP Receipt.isLookup
  /-- A store might answer with an invalid page id itself. -/
  heard : (∀ page, ¬ Error.OfStore σ (.invalidPageId page)) →
    pool.stats.hits.toNat + pool.stats.misses.toNat = receipts.countP Receipt.isHeard
  deletes : pool.stats.deletes.toNat = receipts.countP Receipt.isDeletion
  evictions : pool.stats.evictions.toNat = receipts.countP Receipt.isEviction
  /-- Without the journal every call answers the same, and leaves the same pool. -/
  plain : ∀ call : Call, call.answering pool.bare = bareResult (call.answering pool)
  pages : pool.residentCount + pool.stats.evictions.toNat + receipts.countP Receipt.isDrop =
    receipts.countP Receipt.isMaking + pool.stats.reads.toNat

theorem Audited.submitted (audited : Audited receipts book) (answered : Answers call.answering book answer next) :
    next.disk.journal = book.disk.journal ++
      if book.disk.running then (book.disk.serve (call.requests book)).1 else [] := by
  rw [← Worker.journal_serve]
  by_cases counting : call = .forgetStats
  · subst counting
    cases answer <;> cases answered
    rfl
  · obtain ⟨gone, came, charged⟩ := audited.reconciled.kept.settled counting answered
    rw [charged.disk]

theorem Audited.submitted_sweep {order : List PageId} {answer : Except Error Unit} (audited : Audited receipts book)
    (all : order.Perm book.residents.keys) (answered : Answers (order.forM Pool.flush) book answer next) :
    next.disk.journal = book.disk.journal ++
      if book.disk.running then (book.disk.serve (order.flatMap book.writing)).1 else [] := by
  rw [← Worker.journal_serve, (audited.reconciled.kept.charged_sweep all answered).disk]

theorem toNat_counter {counter : UInt64} {total : Nat} (less : total < 2 ^ 64)
    (counted : counter = 0 + UInt64.ofNat total) : counter.toNat = total := by
  rw [counted, UInt64.zero_add]
  exact UInt64.toNat_ofNat_of_lt less

/-- Whatever calls are made and however the store fails, a pool tells the truth while no counter runs over. -/
theorem Audited.truthful (audited : Audited receipts book) (small : Small receipts book) : Truthful receipts book := by
  obtain ⟨kept, stats, count⟩ := audited.reconciled
  have hits := toNat_counter small.hits (congrArg Stats.hits stats)
  have misses := toNat_counter small.misses (congrArg Stats.misses stats)
  have evictions := toNat_counter small.evictions (congrArg Stats.evictions stats)
  have reads := toNat_counter small.reads (congrArg Stats.reads stats)
  have writes := toNat_counter small.writes (congrArg Stats.writes stats)
  have deletes := toNat_counter small.deletes (congrArg Stats.deletes stats)
  have lookups : book.stats.hits.toNat + book.stats.misses.toNat = receipts.countP Receipt.isLookup := by
    rw [hits, misses, Receipt.lookups_eq]
  refine ⟨audited.submitted, audited.submitted_sweep, writes, reads, lookups, fun honest => ?_, deletes, evictions,
    fun call => alike_answering call book, ?_⟩
  · rw [lookups]
    exact List.countP_congr fun receipt member => by rw [audited.heard honest receipt member]
  · rw [evictions, reads]
    exact count

/-- Makes calls one after the other, if all of them are answered. -/
def conduct : List Call → List Receipt → Pool σ → Option (List Receipt × Pool σ)
  | [], receipts, pool => some (receipts, pool)
  | call :: rest, receipts, pool =>
    match call.answering pool with
    | .ok said later => conduct rest (pool.receipt call (.ok said) later :: receipts) later
    | .error (.error error) later => conduct rest (pool.receipt call (.error error) later :: receipts) later
    | .error (.violation _) _ => none

theorem Audited.conduct {calls : List Call} {all : List Receipt} (audited : Audited receipts book)
    (counting : ∀ call ∈ calls, call ≠ .forgetStats) (done : Pool.conduct calls receipts book = some (all, next)) :
    Audited all next := by
  induction calls generalizing receipts book with
  | nil =>
    cases done
    exact audited
  | cons call rest ih =>
    have here := counting call List.mem_cons_self
    have there : ∀ other ∈ rest, other ≠ .forgetStats := fun other member =>
      counting other (List.mem_cons_of_mem _ member)
    unfold Pool.conduct at done
    split at done
    · rename_i said later ran
      exact ih (audited.called here (show Answers call.answering book (.ok said) later from ran)) there done
    · rename_i error later ran
      exact ih (audited.called here (show Answers call.answering book (.error error) later from ran)) there done
    · cases done

/-- A page is made and marked, another takes its frame, and the first is fetched in vain, then read, then found; one
more fetch is of a page that was never made. The first page is flushed and deleted. -/
theorem truthful_one_frame : ∃ (receipts : List Receipt) (pool : Pool (Journaled RamStore)),
    Audited receipts pool ∧ Truthful receipts pool ∧ pool.residentCount = 0 ∧ pool.stats =
      { hits := 1, misses := 2, evictions := 2, reads := 1, writes := 2, deletes := 1 } := by
  obtain ⟨empty, made⟩ : ∃ pool : Pool (Journaled RamStore), create 1 2 ⟨RamStore.empty, []⟩ = .ok pool := ⟨_, rfl⟩
  have summary : (Pool.conduct [.new, .unpin ⟨0⟩ true, .new, .fetch ⟨0⟩, .unpin ⟨1⟩ false, .fetch ⟨0⟩,
      .fetchGuard ⟨0⟩ .read, .fetch ⟨7⟩, .flush ⟨0⟩, .unpin ⟨0⟩ false, .unpin ⟨0⟩ false, .delete ⟨0⟩] [] empty).map
        (fun run => (run.1.length, run.2.disk.journal.length, run.2.residentCount, run.2.stats)) =
      some (12, 3, 0, { hits := 1, misses := 2, evictions := 2, reads := 1, writes := 2, deletes := 1 }) := by
    cases made
    decide +kernel
  obtain ⟨⟨receipts, pool⟩, done, ends⟩ := Option.map_eq_some_iff.mp summary
  simp only [Prod.mk.injEq] at ends
  obtain ⟨receipts_length, journal_length, count, stats⟩ := ends
  have audited := (Audited.created made).conduct (by simp) done
  have small : Small receipts pool := by
    apply Small.of_length
    · rw [receipts_length]
      decide
    · rw [journal_length]
      decide
  exact ⟨receipts, pool, audited, audited.truthful small, count, stats⟩

end Pool

end PagedIndex
