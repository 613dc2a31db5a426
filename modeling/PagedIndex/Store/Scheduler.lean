import PagedIndex.Store.Worker

/-!
# Request scheduling

Callers queue requests and wait for them by ticket; one worker serves the queue in order.
-/

namespace PagedIndex

/-- The number under which a request is waited for. -/
structure Ticket where
  number : Nat
  deriving DecidableEq

structure Scheduler (σ : Type) where
  worker : Worker σ
  queue : List (Ticket × Request) := []
  answers : List (Ticket × Except Error Page) := []
  issued : Nat := 0

namespace Scheduler

variable {σ : Type} [BackingStore σ]

def start (store : σ) : Scheduler σ := { worker := ⟨store, true⟩ }

/-- Queues a request, if there is still a worker to serve it. -/
def enqueue (scheduler : Scheduler σ) (request : Request) : Except Error Ticket × Scheduler σ :=
  if !scheduler.worker.running then (.error .schedulerShutdown, scheduler)
  else
    let ticket := ⟨scheduler.issued⟩
    (.ok ticket, { scheduler with
      queue := scheduler.queue ++ [(ticket, request)]
      issued := scheduler.issued + 1 })

def serve (scheduler : Scheduler σ) : Scheduler σ :=
  match scheduler.queue with
  | [] => scheduler
  | (ticket, request) :: rest =>
    let (answer, worker) := scheduler.worker.perform request
    { scheduler with worker, queue := rest, answers := (ticket, answer) :: scheduler.answers }

def drain (scheduler : Scheduler σ) : Scheduler σ :=
  scheduler.queue.length.repeat serve scheduler

def answer? (scheduler : Scheduler σ) (ticket : Ticket) : Option (Except Error Page) :=
  (scheduler.answers.find? fun served => served.1 = ticket).map (·.2)

/-- Waits for a request. A request that nobody is going to serve is answered with `schedulerShutdown`. -/
def wait (scheduler : Scheduler σ) (ticket : Ticket) : Except Error Page × Scheduler σ :=
  let scheduler := scheduler.drain
  ((scheduler.answer? ticket).getD (.error .schedulerShutdown), scheduler)

/-- Serves everything in the queue, then lets the worker go. -/
def shutdown (scheduler : Scheduler σ) : Scheduler σ :=
  let scheduler := scheduler.drain
  { scheduler with worker := { scheduler.worker with running := false } }

end Scheduler

end PagedIndex
