import Mathlib
import PagedIndex.Proofs.Pool.Clients
import PagedIndex.Proofs.Pool.Memory

/-!
# Calls among clients

An operation that works in a pool as in a memory may be called at any time between the moves of clients. What
they do to other pages is nothing to it.
-/

namespace PagedIndex

open Pool (Runs Models)

namespace Pool

variable {σ α : Type} {pool later : Pool σ} {action : Action σ α} {answer : Except Error α}

/-- An action comes to an answer, or to an error, and leaves a pool. -/
def Answers (action : Action σ α) (pool : Pool σ) (answer : Except Error α) (later : Pool σ) : Prop :=
  match answer with
  | .ok value => action pool = .ok value later
  | .error error => action pool = .error (.error error) later

theorem Answers.of_bind {β : Type} {action : Action σ α} {rest : α → Action σ β} {answer : Except Error β}
    (answered : Answers (action >>= rest) pool answer later) :
    (∃ value middle, action pool = .ok value middle ∧ Answers (rest value) middle answer later) ∨
      ∃ error, action pool = .error (.error error) later ∧ answer = .error error := by
  cases answer with
  | ok value => exact .inl (ran_of_bind answered)
  | error error =>
    rcases failed_of_bind answered with failed | later
    · exact .inr ⟨error, failed, rfl⟩
    · exact .inl later

/-- An answer comes with a record of what the action did to get to it. -/
theorem Runs.recorded [BackingStore σ] [PageKeeper σ] {leases : List Lease} {memory : Memory}
    {ok : α → Memory → Prop} {failed : Memory → Prop} (runs : Runs leases ⟨False, True⟩ action memory ok failed)
    (models : Models leases False memory pool) (done : Answers action pool answer later) :
    ∃ marks next, Leaves action pool marks ∧ Obliges leases marks ∧ Models leases False next later ∧
      memory.Follows marks next ∧
      match answer with | .ok value => ok value next | .error _ => failed next := by
  obtain ⟨marks, left, obliges, ends⟩ := runs pool models
  refine ⟨marks, ?_⟩
  cases answer with
  | ok value =>
    rw [show action pool = _ from done] at ends
    cases ends with
    | ok models holds => exact ⟨_, left, obliges, models, holds⟩
  | error error =>
    rw [show action pool = _ from done] at ends
    cases ends with
    | error models holds => exact ⟨_, left, obliges, models, holds⟩

theorem Runs.answers [BackingStore σ] [PageKeeper σ] {leases : List Lease} {memory : Memory}
    {ok : α → Memory → Prop} {failed : Memory → Prop} (runs : Runs leases ⟨False, True⟩ action memory ok failed)
    (models : Models leases False memory pool) (done : Answers action pool answer later) :
    ∃ next, Models leases False next later ∧
      match answer with | .ok value => ok value next | .error _ => failed next := by
  obtain ⟨_, next, _, _, models, _, holds⟩ := runs.recorded models done
  exact ⟨next, models, holds⟩

/-- A pool has the same number of frames all its life. -/
theorem Runs.size [BackingStore σ] [PageKeeper σ] {leases : List Lease} {memory : Memory}
    {ok : α → Memory → Prop} {failed : Memory → Prop} (runs : Runs leases ⟨False, True⟩ action memory ok failed)
    (models : Models leases False memory pool) (done : Answers action pool answer later) :
    later.size = pool.size := by
  obtain ⟨_, _, leaves, -⟩ := runs.recorded models done
  rw [← leaves.size]
  cases answer with
  | ok value => rw [show action pool = _ from done]; rfl
  | error error => rw [show action pool = _ from done]; rfl

end Pool

/-- Whether an event leaves some pages as they are. -/
def Event.Spares (owned : PageId → Prop) : Event → Prop
  | .changed page _ | .deleted page => ¬ owned page
  | .quiet | .made _ => True

namespace Session

variable {σ : Type} [BackingStore σ] [PageKeeper σ] {session later : Session σ} {event : Event}

def pages (session : Session σ) : Pages := ⟨session.pool.visible, session.pool.next⟩

def memory (session : Session σ) : Memory := session.pool.outset session.leases 0

theorem Kept.models (kept : session.Kept) {ease : Prop} (eased : ease → Pool.Eased session.leases session.pool) :
    Models session.leases ease session.memory session.pool := by
  have sound : Pool.Sound session.leases ((0 : Multiset PageId).count ·) session.pool := by simpa using kept.sound
  exact sound.models (fun page pinned => absurd pinned (Multiset.notMem_zero page)) eased

theorem Kept.called (kept : session.Kept) {pool : Pool σ} {ease : Prop} {memory : Memory}
    (models : Models session.leases ease memory pool) (free : memory.pins = 0)
    (more : session.pool.next ≤ memory.next) :
    Kept { session with pool } ∧ memory.toPages.Shown (pages { session with pool }) := by
  have sound := models.sound
  rw [free] at sound
  refine ⟨⟨?_, fun page member => ?_, ?_⟩, models.pages⟩
  · change Pool.Sound session.leases (fun _ => 0) pool
    simpa using sound
  · rw [models.next]
    exact UInt32.lt_of_lt_of_le (kept.issued page member) more
  · rw [models.next]
    exact UInt32.le_trans kept.origin more

/-- A page that was firm when an operation began is so afterwards, and the memory has what is seen of it, if it was not
deleted. -/
theorem lasts_of_models {pool : Pool σ} {ease : Prop} {memory : Memory} {marks : List Mark} {page : PageId}
    (models : Models session.leases ease memory pool) (follows : session.memory.Follows marks memory)
    (firm : session.Firm page) (stays : page ∉ droppedIn marks) :
    Firm { session with pool } page ∧ pool.visible page = memory.content page := by
  refine models.sure page (.inl ⟨?_, ?_⟩)
  · rw [follows.firm]
    exact firm
  · rw [follows.marks]
    exact stays

/-- Of the pages that were there, those that are nobody's who took part are as firm as before, and show the same. -/
def Spares (session : Session σ) (mine : PageId → Prop) (later : Session σ) : Prop :=
  ∀ page, page.number < session.pool.next → ¬ mine page → session.Firm page →
    later.Firm page ∧ later.pool.visible page = session.pool.visible page

/-- If the memory is the same at the end, and there is nothing on record, what was firm has lasted. -/
theorem lasts_still {pool : Pool σ} {marks : List Mark}
    (models : Models session.leases False session.memory pool) (follows : session.memory.Follows marks session.memory) :
    session.Lasts { session with pool } ∧ pool.next = session.pool.next := by
  have none : marks = [] := follows.marks.symm
  subst none
  exact ⟨fun page firm => lasts_of_models models follows firm List.not_mem_nil, models.next⟩

theorem Kept.spared (kept : session.Kept) (step : session.Step event later) {owned : PageId → Prop}
    (spares : event.Spares owned) (page : PageId) (mine : owned page) (firm : session.Firm page) :
    later.Firm page ∧ later.pages.content page = session.pages.content page := by
  have shows := (kept.moved step).shows
  cases event with
  | quiet => exact shows page firm
  | changed changed bytes =>
    refine ⟨shows.2 page (.inr firm), (shows.1 page).trans (if_neg ?_)⟩
    rintro rfl
    exact spares mine
  | deleted gone =>
    have differ : gone ≠ page := by
      rintro rfl
      exact spares mine
    exact ⟨shows.2.1 page differ firm, (shows.1 page).trans (if_neg differ)⟩
  | made made => exact shows.2.2.2.2.2 page firm

end Session

end PagedIndex
