import Mathlib
import PagedIndex.Proofs.Store.Keeper

/-!
# Stores that answer

A worker is reliable if it serves whatever is asked of it from now on. The worker of a store
in memory that refuses nothing is one.
-/

namespace PagedIndex

def Request.page : Request → PageId
  | read page | write page _ => page

namespace Worker

variable {σ : Type} [BackingStore σ] {worker later : Worker σ} {wanted : Request}

/-- The worker belongs to some that serve every request for a page and stay among them. -/
def Reliable (worker : Worker σ) : Prop :=
  ∃ Good : Worker σ → Prop, Good worker ∧ ∀ worker, Good worker → ∀ wanted : Request,
    wanted.page.isValid = true → ∃ data later, worker.perform wanted = (.ok data, later) ∧ Good later

theorem Reliable.perform (reliable : worker.Reliable) (valid : wanted.page.isValid = true) :
    ∃ data later, worker.perform wanted = (.ok data, later) ∧ later.Reliable := by
  obtain ⟨Good, good, serves⟩ := reliable
  obtain ⟨data, later, served, still⟩ := serves worker good wanted valid
  exact ⟨data, later, served, Good, still, serves⟩

theorem Reliable.served (reliable : worker.Reliable) (valid : wanted.page.isValid = true) {data : Page}
    (served : worker.perform wanted = (.ok data, later)) : later.Reliable := by
  obtain ⟨_, _, found, still⟩ := reliable.perform valid
  rw [served] at found
  cases found
  exact still

theorem Reliable.not_error (reliable : worker.Reliable) (valid : wanted.page.isValid = true) {error : Error} :
    worker.perform wanted ≠ (.error error, later) := by
  obtain ⟨_, _, found, -⟩ := reliable.perform valid
  rw [found]
  exact nofun

theorem Reliable.running (reliable : worker.Reliable) : worker.running = true := by
  have valid : (Request.read ⟨0⟩).page.isValid = true := by decide
  obtain ⟨_, _, served, -⟩ := reliable.perform valid
  by_contra stopped
  rw [Worker.perform, Bool.eq_false_of_not_eq_true stopped] at served
  cases served

theorem perform_running {store next : σ} {data : Page} (done : execute wanted store = .ok data next) :
    perform ⟨store, true⟩ wanted = (.ok data, ⟨next, true⟩) := by
  simp [perform, done]

theorem execute_write {page : PageId} {data : Page} {store next : σ}
    (done : BackingStore.write page data store = .ok () next) : execute (.write page data) store = .ok data next := by
  simp only [execute, bind, EStateM.bind, done]
  rfl

theorem reliable_of_stores {store : σ} (Good : σ → Prop) (good : Good store)
    (reads : ∀ store (page : PageId), Good store → page.isValid = true →
      ∃ data later, BackingStore.read page store = .ok data later ∧ Good later)
    (writes : ∀ store (page : PageId) (data : Page), Good store → page.isValid = true →
      ∃ later, BackingStore.write page data store = .ok () later ∧ Good later) :
    Reliable ⟨store, true⟩ := by
  refine ⟨fun worker => worker.running = true ∧ Good worker.store, ⟨rfl, good⟩, ?_⟩
  rintro ⟨store, running⟩ ⟨rfl, good⟩ wanted valid
  cases wanted with
  | read page =>
    obtain ⟨data, later, done, still⟩ := reads store page good valid
    exact ⟨data, ⟨later, true⟩, perform_running done, rfl, still⟩
  | write page data =>
    obtain ⟨later, done, still⟩ := writes store page data good valid
    exact ⟨data, ⟨later, true⟩, perform_running (execute_write done), rfl, still⟩

end Worker

theorem RamStore.reliable {store : RamStore} (reads : store.refusesReads = false)
    (writes : store.refusesWrites = false) : Worker.Reliable ⟨store, true⟩ := by
  refine Worker.reliable_of_stores
    (fun store : RamStore => store.refusesReads = false ∧ store.refusesWrites = false) ⟨reads, writes⟩ ?_ ?_
  · rintro store page ⟨reads, writes⟩ _
    exact ⟨_, _, (read_eq page store).trans (if_neg (by simp [reads])), reads, writes⟩
  · rintro store page data ⟨reads, writes⟩ _
    exact ⟨_, (write_eq page data store).trans (if_neg (by simp [writes])), reads, writes⟩

end PagedIndex
