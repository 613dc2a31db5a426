import Mathlib
import PagedIndex.Store.Worker

/-!
# Journals

A store that keeps a journal writes down every request that reaches it, and whether it was carried out. A worker that
serves a list of requests stops at the first that is refused; what its store notes meanwhile is just that list, as far
as it came.
-/

namespace PagedIndex

/-- A request, and whether it was carried out. -/
structure Entry where
  request : Request
  accepted : Bool

namespace Entry

def isRead : Entry → Bool
  | ⟨.read _, accepted⟩ => accepted
  | ⟨.write .., _⟩ => false

def isWrite : Entry → Bool
  | ⟨.read _, _⟩ => false
  | ⟨.write .., accepted⟩ => accepted

variable {page : PageId} {data : Page} {accepted : Bool}

@[simp] theorem isRead_read : isRead ⟨.read page, accepted⟩ = accepted := rfl

@[simp] theorem isRead_write : isRead ⟨.write page data, accepted⟩ = false := rfl

@[simp] theorem isWrite_read : isWrite ⟨.read page, accepted⟩ = false := rfl

@[simp] theorem isWrite_write : isWrite ⟨.write page data, accepted⟩ = accepted := rfl

theorem not_isRead (request : Request) : isRead ⟨request, false⟩ = false := by cases request <;> rfl

theorem not_isWrite (request : Request) : isWrite ⟨request, false⟩ = false := by cases request <;> rfl

end Entry

structure Journaled (σ : Type) where
  store : σ
  /-- The requests so far, the oldest first. -/
  journal : List Entry := []

namespace Journaled

variable {σ : Type} [BackingStore σ]

/-- Notes a request after it was tried. -/
def note {α : Type} (request : Request) (attempt : EStateM Failure σ α) : EStateM Failure (Journaled σ) α :=
  fun journaled =>
    match attempt journaled.store with
    | .ok value store => .ok value ⟨store, journaled.journal ++ [⟨request, true⟩]⟩
    | .error failure store => .error failure ⟨store, journaled.journal ++ [⟨request, false⟩]⟩

instance : BackingStore (Journaled σ) where
  read page := note (.read page) (BackingStore.read page)
  write page data := note (.write page data) (BackingStore.write page data)
  bound journaled := BackingStore.bound journaled.store

theorem execute_eq (wanted : Request) :
    (Worker.execute wanted : EStateM Failure (Journaled σ) Page) = note wanted (Worker.execute wanted) := by
  funext journaled
  cases wanted with
  | read page => rfl
  | write page data =>
    simp only [Worker.execute, BackingStore.write, note, bind, EStateM.bind]
    cases BackingStore.write page data journaled.store <;> rfl

end Journaled

namespace Worker

variable {σ : Type} [BackingStore σ] {wanted : Request} {rest : List Request}

/-- Hands requests to a worker, one after the other, until one is refused. -/
def serve : List Request → Worker σ → List Entry × Worker σ
  | [], worker => ([], worker)
  | wanted :: rest, worker =>
    match worker.perform wanted with
    | (.ok _, next) => (⟨wanted, true⟩ :: (serve rest next).1, (serve rest next).2)
    | (.error _, next) => ([⟨wanted, false⟩], next)

theorem serve_ok {worker next : Worker σ} {data : Page} (served : worker.perform wanted = (.ok data, next)) :
    worker.serve (wanted :: rest) = (⟨wanted, true⟩ :: (next.serve rest).1, (next.serve rest).2) := by
  rw [serve, served]

theorem serve_error {worker next : Worker σ} {error : Error} (failed : worker.perform wanted = (.error error, next)) :
    worker.serve (wanted :: rest) = ([⟨wanted, false⟩], next) := by
  rw [serve, failed]

theorem serve_one {worker next : Worker σ} {answer : Except Error Page}
    (performed : worker.perform wanted = (answer, next)) : worker.serve [wanted] = ([⟨wanted, answer.isOk⟩], next) := by
  cases answer with
  | ok data => exact serve_ok performed
  | error error => exact serve_error performed

theorem serve_append (first second : List Request) (worker : Worker σ) :
    worker.serve (first ++ second) =
      if (worker.serve first).1.all Entry.accepted then
        ((worker.serve first).1 ++ ((worker.serve first).2.serve second).1, ((worker.serve first).2.serve second).2)
      else worker.serve first := by
  induction first generalizing worker with
  | nil => rfl
  | cons wanted rest ih =>
    generalize performed : worker.perform wanted = result
    obtain ⟨answer, next⟩ := result
    rw [List.cons_append]
    cases answer with
    | ok data =>
      rw [serve_ok performed, serve_ok performed, ih]
      by_cases all : (next.serve rest).1.all Entry.accepted <;> simp [all]
    | error error =>
      rw [serve_error performed, serve_error performed]
      rfl

/-! ### What a journal says of a worker -/

variable {worker next : Worker (Journaled σ)}

def journal (worker : Worker (Journaled σ)) : List Entry := worker.store.journal

theorem journal_stopped {answer : Except Error Page} (stopped : worker.running = false)
    (performed : worker.perform wanted = (answer, next)) :
    next.journal = worker.journal ∧ answer = .error .schedulerShutdown := by
  rw [perform, stopped] at performed
  cases performed
  exact ⟨rfl, rfl⟩

theorem journal_perform {answer : Except Error Page} (running : worker.running = true)
    (performed : worker.perform wanted = (answer, next)) :
    next.journal = worker.journal ++ [⟨wanted, answer.isOk⟩] ∧ (answer.isOk = true → next.running = true) := by
  rw [perform, running, Journaled.execute_eq, Journaled.note] at performed
  cases tried : execute wanted worker.store.store with
  | ok data store =>
    rw [tried] at performed
    cases performed
    exact ⟨rfl, fun _ => rfl⟩
  | error failure store =>
    rw [tried] at performed
    cases failure <;> cases performed <;> exact ⟨rfl, nofun⟩

theorem journal_serve (requests : List Request) (worker : Worker (Journaled σ)) :
    (worker.serve requests).2.journal =
      worker.journal ++ if worker.running then (worker.serve requests).1 else [] := by
  induction requests generalizing worker with
  | nil => simp [serve]
  | cons wanted rest ih =>
    generalize performed : worker.perform wanted = result
    obtain ⟨answer, next⟩ := result
    cases running : worker.running with
    | false =>
      obtain ⟨same, rfl⟩ := journal_stopped running performed
      rw [serve_error performed, same]
      simp
    | true =>
      obtain ⟨noted, still⟩ := journal_perform running performed
      cases answer with
      | ok data =>
        rw [serve_ok performed, ih, noted, still rfl]
        simp [Except.isOk, Except.toBool]
      | error error =>
        rw [serve_error performed, noted]
        simp [Except.isOk, Except.toBool]

/-- Whether a worker runs or not, its journal grows by as many requests as it carries out. -/
theorem countP_journal_serve {counts : Entry → Bool} (carried : ∀ request, counts ⟨request, false⟩ = false)
    (requests : List Request) (worker : Worker (Journaled σ)) :
    (worker.serve requests).2.journal.countP counts =
      worker.journal.countP counts + (worker.serve requests).1.countP counts := by
  rw [journal_serve, List.countP_append]
  cases running : worker.running with
  | true => rfl
  | false =>
    cases requests with
    | nil => rfl
    | cons wanted rest =>
      generalize performed : worker.perform wanted = result
      obtain ⟨answer, next⟩ := result
      obtain ⟨_, rfl⟩ := journal_stopped running performed
      rw [serve_error performed]
      simp [carried]

end Worker

end PagedIndex
