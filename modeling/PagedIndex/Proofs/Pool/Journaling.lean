import Mathlib
import PagedIndex.Proofs.Pool.Balance
import PagedIndex.Proofs.Store.Journal

/-!
# Journals change nothing

A pool whose store keeps a journal does what it would do without it. What is known of pools with a journal is therefore
known of all of them.
-/

namespace PagedIndex

def Worker.bare {σ : Type} (worker : Worker (Journaled σ)) : Worker σ := ⟨worker.store.store, worker.running⟩

theorem Worker.perform_bare {σ : Type} [BackingStore σ] (worker : Worker (Journaled σ)) (wanted : Request) :
    worker.bare.perform wanted = ((worker.perform wanted).1, (worker.perform wanted).2.bare) := by
  obtain ⟨⟨store, journal⟩, running⟩ := worker
  cases running with
  | false => rfl
  | true =>
    simp only [perform, bare, Journaled.execute_eq, Journaled.note, Bool.not_true, Bool.false_eq_true, if_false]
    cases execute wanted store with
    | ok data next => rfl
    | error failure next => cases failure <;> rfl

namespace Pool

variable {σ α β : Type}

/-- The pool without the journal of its store. -/
def bare (pool : Pool (Journaled σ)) : Pool σ where
  frames := pool.frames
  residents := pool.residents
  free := pool.free
  next := pool.next
  replacer := pool.replacer
  disk := pool.disk.bare
  stats := pool.stats

theorem bare_frames (pool : Pool (Journaled σ)) : pool.bare.frames = pool.frames := rfl

theorem bare_residents (pool : Pool (Journaled σ)) : pool.bare.residents = pool.residents := rfl

theorem bare_free (pool : Pool (Journaled σ)) : pool.bare.free = pool.free := rfl

theorem bare_next (pool : Pool (Journaled σ)) : pool.bare.next = pool.next := rfl

theorem bare_replacer (pool : Pool (Journaled σ)) : pool.bare.replacer = pool.replacer := rfl

def bareResult : Result (Journaled σ) α → Result σ α
  | .ok value later => .ok value later.bare
  | .error failure later => .error failure later.bare

/-- Two actions do the same, one of them without a journal. -/
def Alike (plain : Action σ α) (noting : Action (Journaled σ) α) : Prop :=
  ∀ pool, plain pool.bare = bareResult (noting pool)

namespace Alike

variable {first : Action σ α} {noting : Action (Journaled σ) α} {rest : α → Action σ β}
  {follow : α → Action (Journaled σ) β}

theorem pure (value : α) : Alike (pure value : Action σ α) (pure value) := fun _ => rfl

theorem throw (failure : Failure) : Alike (throw failure : Action σ α) (throw failure) := fun _ => rfl

theorem bind (one : Alike first noting) (next : ∀ value, Alike (rest value) (follow value)) :
    Alike (first >>= rest) (noting >>= follow) := by
  intro pool
  have same := one pool
  cases run : noting pool with
  | ok value later =>
    rw [run] at same
    rw [bind_ok run, bind_ok same]
    exact next value later
  | error failure later =>
    rw [run] at same
    rw [bind_error run, bind_error same]
    rfl

theorem get {rest : Pool σ → Action σ β} {follow : Pool (Journaled σ) → Action (Journaled σ) β}
    (next : ∀ pool, Alike (rest pool.bare) (follow pool)) : Alike (get >>= rest) (get >>= follow) :=
  fun pool => next pool pool

theorem modify {change : Pool σ → Pool σ} {alter : Pool (Journaled σ) → Pool (Journaled σ)}
    (same : ∀ pool, change pool.bare = (alter pool).bare) :
    Alike (modify change : Action σ PUnit) (modify alter) := by
  intro pool
  change EStateM.Result.ok _ (change pool.bare) = .ok _ (alter pool).bare
  rw [same]

theorem lift (outcome : Outcome α) : Alike (liftM outcome : Action σ α) (liftM outcome) := by
  intro pool
  cases outcome <;> rfl

end Alike

theorem alike_frame (id : FrameId) : Alike (frame id : Action σ Frame) (frame id) := by
  refine .get fun pool => ?_
  rw [bare_frames]
  cases pool.frames[id.index]? with
  | some found => exact .pure found
  | none => exact .throw _

theorem alike_setFrame (id : FrameId) (frame : Frame) : Alike (setFrame id frame : Action σ Unit) (setFrame id frame) :=
  .modify fun _ => rfl

theorem alike_setDirty (id : FrameId) : Alike (setDirty id : Action σ Unit) (setDirty id) :=
  (alike_frame id).bind fun _ => alike_setFrame id _

theorem alike_overwriteFrame (id : FrameId) (change : Page → Outcome Page) :
    Alike (overwriteFrame id change : Action σ Unit) (overwriteFrame id change) := by
  refine (alike_frame id).bind fun found => ?_
  exact (Alike.lift (change found.page)).bind fun page => alike_setFrame id _

theorem alike_updateReplacer (change : LruK → Outcome LruK) :
    Alike (updateReplacer change : Action σ Unit) (updateReplacer change) :=
  .get fun pool => (Alike.lift (change pool.replacer)).bind fun _ _ => rfl

theorem alike_count (bump : Stats → Stats) : Alike (count bump : Action σ Unit) (count bump) := .modify fun _ => rfl

theorem alike_erase (page : PageId) :
    Alike (modify fun pool => { pool with residents := pool.residents.erase page } : Action σ PUnit)
      (modify fun pool => { pool with residents := pool.residents.erase page }) := .modify fun _ => rfl

theorem alike_settle (answer : Except Error α) : Alike (settle answer : Action σ α) (settle answer) := by
  cases answer with
  | ok value => exact .pure value
  | error error => exact .throw _

theorem alike_pinFrame (id : FrameId) : Alike (pinFrame id : Action σ Unit) (pinFrame id) := by
  refine (alike_frame id).bind fun found => ?_
  refine (Alike.lift found.pin).bind fun pinned => ?_
  split
  · exact (alike_updateReplacer _).bind fun _ => alike_setFrame id pinned
  · exact alike_setFrame id pinned

theorem alike_occupy (id : FrameId) (page : PageId) : Alike (occupy id page : Action σ Unit) (occupy id page) := by
  refine (alike_frame id).bind fun found => ?_
  refine (Alike.lift _).bind fun pinned => ?_
  refine (alike_setFrame id pinned).bind fun _ => ?_
  exact (Alike.modify fun _ => rfl).bind fun _ => alike_updateReplacer _

theorem alike_unpin (page : PageId) (dirty : Bool) : Alike (unpin page dirty : Action σ Bool) (unpin page dirty) := by
  refine .get fun pool => ?_
  rw [bare_residents]
  cases pool.residents[page]? with
  | none => exact .pure false
  | some id =>
    refine (alike_frame id).bind fun found => ?_
    cases found.unpin? with
    | none => exact .pure false
    | some released =>
      refine (alike_setFrame id _).bind fun _ => ?_
      split
      · refine .get fun pool => ?_
        rw [bare_replacer]
        cases pool.replacer.permit id true with
        | ok replacer => exact (Alike.modify fun _ => rfl).bind fun _ => .pure true
        | error failure => exact fun _ => rfl
      · exact .pure true

theorem alike_delete (page : PageId) : Alike (delete page : Action σ Bool) (delete page) := by
  have gone := (alike_count (σ := σ) fun stats => { stats with deletes := stats.deletes + 1 }).bind fun _ =>
    Alike.pure true
  refine .get fun pool => ?_
  rw [bare_residents]
  cases pool.residents[page]? with
  | none => exact gone
  | some id =>
    refine (alike_frame id).bind fun found => ?_
    cases found.isPinned with
    | true => exact .pure false
    | false =>
      simp only [Bool.false_eq_true, if_false]
      refine .get fun pool => ?_
      rw [bare_replacer]
      cases pool.replacer.remove id with
      | error failure => exact fun _ => rfl
      | ok replacer => exact (alike_setFrame id _).bind fun _ => (Alike.modify fun _ => rfl).bind fun _ => gone

variable [BackingStore σ]

theorem alike_request (wanted : Request) : Alike (request wanted : Action σ (Except Error Page)) (request wanted) := by
  intro pool
  have disk : pool.bare.disk = pool.disk.bare := rfl
  rw [request_ok, request_ok, disk, Worker.perform_bare]
  rfl

theorem alike_save (id : FrameId) (page : PageId) :
    Alike (save id page : Action σ (Except Error Unit)) (save id page) := by
  refine (alike_frame id).bind fun found => ?_
  refine (alike_setFrame id _).bind fun _ => ?_
  refine (alike_request _).bind fun answer => ?_
  cases answer with
  | ok data => exact (alike_count _).bind fun _ => .pure _
  | error error => exact (alike_setDirty id).bind fun _ => .pure _

theorem alike_claimFrame : Alike (claimFrame : Action σ FrameId) claimFrame := by
  refine .get fun pool => ?_
  rw [bare_free]
  cases pool.free with
  | cons id rest => exact fun _ => rfl
  | nil =>
    rw [bare_replacer]
    cases pool.replacer.victim with
    | none => exact .throw _
    | some id =>
      refine (alike_frame id).bind fun found => ?_
      have last := (alike_updateReplacer (σ := σ) (·.remove id)).bind fun _ =>
        (alike_setFrame id Frame.empty).bind fun _ =>
        (alike_count fun stats => { stats with evictions := stats.evictions + 1 }).bind fun _ => Alike.pure id
      cases found.holds with
      | none => exact last
      | some page =>
        have gone := (alike_erase (σ := σ) page).bind fun _ => last
        cases found.dirty with
        | true =>
          simp only [if_true]
          exact (alike_save id page).bind fun answer => (alike_settle answer).bind fun _ => gone
        | false =>
          simp only [Bool.false_eq_true, if_false]
          exact gone

theorem alike_new : Alike (new : Action σ (PageId × FrameId)) new := by
  refine alike_claimFrame.bind fun id => ?_
  refine .get fun pool => ?_
  rw [bare_next]
  refine (Alike.lift _).bind fun next => ?_
  refine (Alike.modify fun _ => rfl).bind fun _ => ?_
  exact (alike_occupy id _).bind fun _ => .pure _

theorem alike_fetch (page : PageId) : Alike (fetch page : Action σ FrameId) (fetch page) := by
  refine .get fun pool => ?_
  rw [bare_next]
  cases !page.isValid || decide (pool.next ≤ page.number) with
  | true => exact fun _ => rfl
  | false =>
    simp only [Bool.false_eq_true, if_false]
    rw [bare_residents]
    cases pool.residents[page]? with
    | some id =>
      refine (alike_pinFrame id).bind fun _ => ?_
      refine (alike_updateReplacer _).bind fun _ => ?_
      exact (alike_count _).bind fun _ => .pure id
    | none =>
      refine (alike_count _).bind fun _ => ?_
      refine alike_claimFrame.bind fun id => ?_
      refine (alike_request _).bind fun answer => ?_
      cases answer with
      | error error => exact (Alike.modify fun _ => rfl).bind fun _ => .throw _
      | ok bytes =>
        refine (alike_count _).bind fun _ => ?_
        refine (alike_overwriteFrame id _).bind fun _ => ?_
        exact (alike_occupy id page).bind fun _ => .pure id

theorem alike_flush (page : PageId) : Alike (flush page : Action σ Unit) (flush page) := by
  refine .get fun pool => ?_
  rw [bare_residents]
  cases pool.residents[page]? with
  | none => exact .throw _
  | some id =>
    refine (alike_pinFrame id).bind fun _ => ?_
    refine (alike_save id page).bind fun written => ?_
    exact (alike_unpin page false).bind fun _ => alike_settle written

theorem alike_flushAll : Alike (flushAll : Action σ Unit) flushAll := by
  refine .get fun pool => ?_
  rw [bare_residents]
  induction pool.residents.keys with
  | nil => exact .pure ()
  | cons page rest ih => exact (alike_flush page).bind fun _ => ih

/-- A call, with yes or no for an answer. Calls that say neither say yes. -/
def Call.answering : Call → Action σ Bool
  | .delete page => Pool.delete page
  | call => do
    call.run
    return true

/-- What is answered without a journal is answered with it, and the same pool is left. -/
theorem alike_answering (call : Call) : Alike (call.answering : Action σ Bool) call.answering := by
  cases call with
  | new => exact (alike_new.bind fun _ => .pure ()).bind fun _ => .pure true
  | fetch page => exact ((alike_fetch page).bind fun _ => .pure ()).bind fun _ => .pure true
  | unpin page dirty => exact ((alike_unpin page dirty).bind fun _ => .pure ()).bind fun _ => .pure true
  | flush page => exact (alike_flush page).bind fun _ => .pure true
  | flushAll => exact alike_flushAll.bind fun _ => .pure true
  | delete page => exact alike_delete page
  | newGuard => exact ((alike_new.bind fun _ => .pure _).bind fun _ => .pure ()).bind fun _ => .pure true
  | fetchGuard page access =>
    exact (((alike_fetch page).bind fun _ => .pure _).bind fun _ => .pure ()).bind fun _ => .pure true
  | release guard =>
    have released : Alike (guard.release : Action σ Guard) guard.release := by
      unfold Guard.release
      cases guard.lease with
      | none => exact .pure _
      | some lease => exact (alike_unpin lease.page lease.dirty).bind fun _ => .pure _
    exact (released.bind fun _ => .pure ()).bind fun _ => .pure true
  | forgetStats => exact (Alike.modify fun _ => rfl).bind fun _ => .pure true

end Pool

end PagedIndex
