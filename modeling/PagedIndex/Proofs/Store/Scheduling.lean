import Mathlib
import PagedIndex.Store.Ram
import PagedIndex.Store.Scheduler

/-!
# First come, first served

Callers queue requests, wait for some and forget others, and in the end close the scheduler. The worker takes the
first request, executes it and sends the answer. In whatever order these steps are made, the store is asked what it
would be asked if each request were executed when it is made, and every request has the answer that it would have then.
-/

namespace PagedIndex

variable {σ : Type}

/-! ### One after the other -/

/-- What becomes of requests that are executed as they are made. -/
structure Course (σ : Type) where
  executed : List Request
  answers : List (Except Error Page)
  worker : Worker σ

namespace Course

def after (request : Request) (answer : Except Error Page) (rest : Course σ) : Course σ :=
  ⟨request :: rest.executed, answer :: rest.answers, rest.worker⟩

variable [BackingStore σ]

/-- A store that gives up executes nothing any more: that request and all later ones are answered with
`schedulerShutdown`. -/
def of : List Request → σ → Course σ
  | [], store => ⟨[], [], ⟨store, true⟩⟩
  | request :: rest, store =>
    match Worker.execute request store with
    | .ok page next => (of rest next).after request (.ok page)
    | .error (.error error) next => (of rest next).after request (.error error)
    | .error (.violation _) next =>
      ⟨[request], (request :: rest).map fun _ => .error .schedulerShutdown, ⟨next, false⟩⟩

def next (course : Course σ) (request : Request) : Course σ where
  executed := if course.worker.running then course.executed ++ [request] else course.executed
  answers := course.answers ++ [(course.worker.perform request).1]
  worker := (course.worker.perform request).2

variable {requests more : List Request} {store : σ}

theorem next_after (course : Course σ) (first request : Request) (answer : Except Error Page) :
    (course.after first answer).next request = (course.next request).after first answer := by
  unfold next after
  cases course.worker.running <;> rfl

theorem of_append_one (requests : List Request) (request : Request) (store : σ) :
    of (requests ++ [request]) store = (of requests store).next request := by
  -- `of` takes the requests from the front and `next` adds one at the back.
  induction requests generalizing store with
  | nil =>
    show of [request] store = next ⟨[], [], ⟨store, true⟩⟩ request
    unfold of next Worker.perform
    cases Worker.execute request store with
    | ok page later => rfl
    | error failure later => cases failure <;> rfl
  | cons first rest ih =>
    rw [List.cons_append]
    unfold of
    cases Worker.execute first store with
    | ok page later =>
      dsimp only
      rw [ih, next_after]
    | error failure later =>
      cases failure with
      | error error =>
        dsimp only
        rw [ih, next_after]
      | violation violation => simp [next, Worker.perform]

theorem answers_length (requests : List Request) (store : σ) :
    (of requests store).answers.length = requests.length := by
  induction requests using List.reverseRecOn with
  | nil => rfl
  | append_singleton requests request ih =>
    rw [of_append_one, next, List.length_append, List.length_append, ih]
    rfl

/-- Later requests do not change what the earlier ones were answered with. -/
theorem answers_append {answer : Except Error Page} {i : Nat} (told : (of requests store).answers[i]? = some answer)
    (more : List Request) : (of (requests ++ more) store).answers[i]? = some answer := by
  induction more using List.reverseRecOn with
  | nil => rwa [List.append_nil]
  | append_singleton more request ih =>
    rw [← List.append_assoc, of_append_one]
    exact List.getElem?_append_left (List.getElem?_eq_some_iff.mp ih).1 |>.trans ih

theorem stopped_append (stopped : (of requests store).worker.running = false) (more : List Request) :
    (of (requests ++ more) store).worker = (of requests store).worker ∧
      (of (requests ++ more) store).executed = (of requests store).executed := by
  induction more using List.reverseRecOn with
  | nil => rw [List.append_nil]; exact ⟨rfl, rfl⟩
  | append_singleton more request ih =>
    obtain ⟨worker, executed⟩ := ih
    rw [← List.append_assoc, of_append_one]
    simp [next, worker, executed, stopped, Worker.perform]

theorem executed_prefix (requests : List Request) (store : σ) : (of requests store).executed <+: requests := by
  induction requests generalizing store with
  | nil => exact List.prefix_rfl
  | cons request rest ih =>
    unfold of
    split
    · exact List.prefix_cons_inj request |>.mpr (ih _)
    · exact List.prefix_cons_inj request |>.mpr (ih _)
    · exact List.prefix_append [request] rest

theorem executed_of_running (running : (of requests store).worker.running = true) :
    (of requests store).executed = requests := by
  induction requests generalizing store with
  | nil => rfl
  | cons request rest ih =>
    unfold of at running ⊢
    split at running
    · exact congrArg (request :: ·) (ih running)
    · exact congrArg (request :: ·) (ih running)
    · cases running

/-- A store that keeps a record of what it is asked. -/
structure Records (seen : σ → List Request) : Prop where
  ok : ∀ {request : Request} {store later : σ} {page : Page},
    Worker.execute request store = .ok page later → seen later = seen store ++ [request]
  error : ∀ {request : Request} {store later : σ} {failure : Failure},
    Worker.execute request store = .error failure later → seen later = seen store ++ [request]

theorem Records.of {seen : σ → List Request} (records : Records seen) (requests : List Request) (store : σ) :
    seen (Course.of requests store).worker.store = seen store ++ (Course.of requests store).executed := by
  induction requests generalizing store with
  | nil => exact (List.append_nil _).symm
  | cons request rest ih =>
    unfold Course.of
    cases done : Worker.execute request store with
    | ok page later =>
      show seen (Course.of rest later).worker.store = seen store ++ request :: (Course.of rest later).executed
      rw [ih, records.ok done, List.append_assoc]
      rfl
    | error failure later =>
      cases failure with
      | error error =>
        show seen (Course.of rest later).worker.store = seen store ++ request :: (Course.of rest later).executed
        rw [ih, records.error done, List.append_assoc]
        rfl
      | violation violation => exact records.error done

/-- A request on which the store gives up is the last one executed. It and all later ones are told so. -/
theorem aborted {before after : List Request} {request : Request} {violation : Violation} {later : σ}
    (running : (of before store).worker.running = true)
    (aborts : Worker.execute request (of before store).worker.store = .error (.violation violation) later) :
    (of (before ++ request :: after) store).executed = before ++ [request] ∧
      (of (before ++ request :: after) store).worker = ⟨later, false⟩ ∧
      ∀ answer ∈ (of (before ++ request :: after) store).answers.drop before.length,
        answer = .error .schedulerShutdown := by
  have split : before ++ request :: after = before ++ [request] ++ after := by simp
  have stopped : of (before ++ [request]) store =
      ⟨before ++ [request], (of before store).answers ++ [.error .schedulerShutdown], ⟨later, false⟩⟩ := by
    rw [of_append_one, next, executed_of_running running]
    simp [Worker.perform, running, aborts]
  obtain ⟨worker, executed⟩ := stopped_append (congrArg (·.worker.running) stopped) after
  rw [split]
  refine ⟨executed.trans (congrArg (·.executed) stopped), worker.trans (congrArg (·.worker) stopped), ?_⟩
  clear split worker executed
  -- From here on every further request finds the worker gone.
  induction after using List.reverseRecOn with
  | nil =>
    rw [List.append_nil, stopped, ← answers_length before store, List.drop_left]
    simp
  | append_singleton after other ih =>
    have gone := (stopped_append (congrArg (·.worker.running) stopped) after).1
    have long : before.length ≤ (of (before ++ [request] ++ after) store).answers.length := by
      rw [answers_length]
      simp
    rw [← List.append_assoc, of_append_one, next, List.drop_append_of_le_length long]
    intro answer member
    rcases List.mem_append.mp member with earlier | last
    · exact ih answer earlier
    · have told := List.mem_singleton.mp last
      rw [told, gone, stopped]
      rfl

end Course

namespace Scheduler

/-! ### Steps -/

inductive Phase where
  | serving
  /-- The worker is told to leave. So many requests still are ahead of that message. -/
  | closing (ahead : Nat)
  | closed
  deriving DecidableEq

def Phase.advanced : Phase → Phase
  | closing ahead => closing (ahead - 1)
  | phase => phase

theorem Phase.advanced_closing {phase : Phase} {left : Nat} (closing : phase.advanced = .closing left) :
    ∃ all, phase = .closing all ∧ left = all - 1 := by
  cases phase with
  | closing all =>
    cases closing
    exact ⟨all, rfl, rfl⟩
  | serving => cases closing
  | closed => cases closing

theorem Phase.advanced_closed {phase : Phase} (closed : phase.advanced = .closed) : phase = .closed := by
  cases phase with
  | closed => rfl
  | serving => cases closed
  | closing => cases closed

/-- What the worker is at. -/
inductive Hand where
  | empty
  | holding (ticket : Ticket) (request : Request)
  | finished (ticket : Ticket) (answer : Except Error Page)
  /-- The worker has left. -/
  | gone

/-- A scheduler, its worker at work, and those who wait for it. -/
structure Desk (σ : Type) where
  scheduler : Scheduler σ
  hand : Hand := .empty
  futures : List Ticket := []
  phase : Phase := .serving

inductive Event where
  | accepted (ticket : Ticket) (request : Request)
  | refused (request : Request) (error : Error)
  | taken
  | executed
  | sent
  | left
  | waited (ticket : Ticket) (answer : Except Error Page)
  | forgotten (ticket : Ticket)
  | closing
  | closed

def Event.accepted? : Event → Option (Ticket × Request)
  | accepted ticket request => some (ticket, request)
  | _ => none

def requests (events : List Event) : List Request := (events.filterMap Event.accepted?).map (·.2)

def accepting (scheduler : Scheduler σ) (request : Request) : Scheduler σ := { scheduler with
  queue := scheduler.queue ++ [(⟨scheduler.issued⟩, request)]
  issued := scheduler.issued + 1 }

variable [BackingStore σ]

inductive Step : Desk σ → Event → Desk σ → Prop where
  | accepted {desk : Desk σ} {request : Request} {ticket : Ticket} {later : Scheduler σ}
      (serving : desk.phase = .serving) (queued : desk.scheduler.enqueue request = (.ok ticket, later)) :
      Step desk (.accepted ticket request) { desk with scheduler := later, futures := ticket :: desk.futures }
  /-- The store has just given up, and nobody knows yet. -/
  | slipped {desk : Desk σ} {request : Request} (serving : desk.phase = .serving)
      (gone : desk.scheduler.worker.running = false) :
      Step desk (.accepted ⟨desk.scheduler.issued⟩ request) { desk with
        scheduler := desk.scheduler.accepting request
        futures := ⟨desk.scheduler.issued⟩ :: desk.futures }
  | refused {desk : Desk σ} {request : Request} {error : Error} {later : Scheduler σ}
      (serving : desk.phase = .serving) (refused : desk.scheduler.enqueue request = (.error error, later)) :
      Step desk (.refused request error) { desk with scheduler := later }
  | taken {desk : Desk σ} {ticket : Ticket} {request : Request} {rest : List (Ticket × Request)}
      (idle : desk.hand = .empty) (head : desk.scheduler.queue = (ticket, request) :: rest)
      (ahead : desk.phase ≠ .closing 0) :
      Step desk .taken { desk with
        scheduler := { desk.scheduler with queue := rest }
        hand := .holding ticket request
        phase := desk.phase.advanced }
  /-- If the store has given up the request is dropped instead. -/
  | executed {desk : Desk σ} {ticket : Ticket} {request : Request} (holding : desk.hand = .holding ticket request) :
      Step desk .executed { desk with
        scheduler := { desk.scheduler with worker := (desk.scheduler.worker.perform request).2 }
        hand := .finished ticket (desk.scheduler.worker.perform request).1 }
  | sent {desk : Desk σ} {ticket : Ticket} {answer : Except Error Page}
      (finished : desk.hand = .finished ticket answer) :
      Step desk .sent { desk with
        scheduler := { desk.scheduler with answers := (ticket, answer) :: desk.scheduler.answers }
        hand := .empty }
  | left {desk : Desk σ} (idle : desk.hand = .empty) (told : desk.phase = .closing 0) :
      Step desk .left { desk with hand := .gone }
  | waited {desk : Desk σ} {ticket : Ticket} {answer : Except Error Page} (mine : ticket ∈ desk.futures)
      (answered : desk.scheduler.answer? ticket = some answer) :
      Step desk (.waited ticket answer) { desk with futures := desk.futures.erase ticket }
  | forgotten {desk : Desk σ} {ticket : Ticket} (mine : ticket ∈ desk.futures) :
      Step desk (.forgotten ticket) { desk with futures := desk.futures.erase ticket }
  | closing {desk : Desk σ} (serving : desk.phase = .serving) :
      Step desk .closing { desk with phase := .closing desk.scheduler.queue.length }
  /-- Whoever closes the scheduler is held up until the worker has left. -/
  | closed {desk : Desk σ} {ahead : Nat} (closing : desk.phase = .closing ahead) (left : desk.hand = .gone) :
      Step desk .closed { desk with phase := .closed }

/-- Everything that may happen from when a worker is given a store. -/
inductive Run (store : σ) : List Event → Desk σ → Prop where
  | start : Run store [] { scheduler := start store }
  | step {events : List Event} {desk later : Desk σ} {event : Event} (before : Run store events desk)
      (step : Step desk event later) : Run store (events ++ [event]) later

/-! ### A scheduler that goes by its requests -/

variable {store : σ} {made : List Request} {request : Request} {scheduler later : Scheduler σ} {taken : Nat}

def numbered (made : List Request) : List (Ticket × Request) := made.mapIdx fun i request => (⟨i⟩, request)

omit [BackingStore σ] in
theorem numbered_length : (numbered made).length = made.length := List.length_mapIdx

omit [BackingStore σ] in
theorem numbered_append_one : numbered (made ++ [request]) = numbered made ++ [(⟨made.length⟩, request)] :=
  List.mapIdx_concat

omit [BackingStore σ] in
theorem answer?_answered (scheduler : Scheduler σ) (worker : Worker σ) (queue : List (Ticket × Request))
    (served ticket : Ticket) (answer : Except Error Page) :
    ({ scheduler with worker, queue, answers := (served, answer) :: scheduler.answers } : Scheduler σ).answer? ticket =
      if served = ticket then some answer else scheduler.answer? ticket := by
  unfold answer?
  rw [List.find?_cons]
  by_cases same : served = ticket <;> simp [same]

/-- Of all requests made some have been taken, the others are in the queue. -/
structure Serves (store : σ) (made : List Request) (taken : Nat) (scheduler : Scheduler σ) : Prop where
  issued : scheduler.issued = made.length
  some_left : taken ≤ made.length
  queue : scheduler.queue = (numbered made).drop taken
  worker : scheduler.worker = (Course.of (made.take taken) store).worker
  answers : ∀ ticket, scheduler.answer? ticket = (Course.of (made.take taken) store).answers[ticket.number]?

namespace Serves

theorem start (store : σ) : Serves store [] 0 (start store) where
  issued := rfl
  some_left := Nat.le_refl 0
  queue := rfl
  worker := rfl
  answers _ := rfl

theorem accepting (serves : Serves store made taken scheduler) (request : Request) :
    Serves store (made ++ [request]) taken (scheduler.accepting request) where
  issued := by
    show scheduler.issued + 1 = _
    rw [serves.issued, List.length_append]
    rfl
  some_left := by
    rw [List.length_append]
    exact Nat.le_add_right_of_le serves.some_left
  queue := by
    show scheduler.queue ++ [(⟨scheduler.issued⟩, request)] = _
    have inside : taken ≤ (numbered made).length := numbered_length.symm ▸ serves.some_left
    rw [numbered_append_one, List.drop_append_of_le_length inside, serves.queue, serves.issued]
  worker := by
    rw [List.take_append_of_le_length serves.some_left]
    exact serves.worker
  answers ticket := by
    rw [List.take_append_of_le_length serves.some_left]
    exact serves.answers ticket

theorem answers_length (serves : Serves store made taken scheduler) :
    (Course.of (made.take taken) store).answers.length = taken := by
  rw [Course.answers_length, List.length_take, Nat.min_eq_left serves.some_left]

theorem head (serves : Serves store made taken scheduler) {ticket : Ticket} {rest : List (Ticket × Request)}
    (head : scheduler.queue = (ticket, request) :: rest) :
    ticket = ⟨taken⟩ ∧ scheduler.answer? ticket = none ∧ made.take (taken + 1) = made.take taken ++ [request] ∧
      rest = (numbered made).drop (taken + 1) := by
  have queue := serves.queue.symm.trans head
  have inside : taken < (numbered made).length := by
    by_contra all
    rw [List.drop_eq_nil_of_le (not_lt.mp all)] at queue
    cases queue
  rw [List.drop_eq_getElem_cons inside] at queue
  obtain ⟨first, others⟩ := List.cons.inj queue
  have less : taken < made.length := numbered_length ▸ inside
  have pair : ((⟨taken⟩ : Ticket), made[taken]) = (ticket, request) := by simpa [numbered] using first
  obtain ⟨rfl, rfl⟩ := Prod.mk.inj pair
  refine ⟨rfl, ?_, ?_, others.symm⟩
  · rw [serves.answers, List.getElem?_eq_none]
    exact Nat.le_of_eq serves.answers_length
  · rw [List.take_append_getElem less]

theorem serve (serves : Serves store made taken scheduler) (pending : scheduler.queue ≠ []) :
    Serves store made (taken + 1) scheduler.serve := by
  obtain ⟨⟨ticket, request⟩, rest, head⟩ := List.exists_cons_of_ne_nil pending
  obtain ⟨rfl, -, taken_next, others⟩ := serves.head head
  have course : Course.of (made.take (taken + 1)) store = (Course.of (made.take taken) store).next request := by
    rw [taken_next, Course.of_append_one]
  have served : scheduler.serve = { scheduler with
      worker := (scheduler.worker.perform request).2
      queue := rest
      answers := (⟨taken⟩, (scheduler.worker.perform request).1) :: scheduler.answers } := by
    unfold Scheduler.serve
    rw [head]
  have less : taken < made.length := by
    have lengths := congrArg List.length taken_next
    rw [List.length_append, List.length_take, List.length_take, List.length_singleton] at lengths
    omega
  rw [served]
  refine ⟨serves.issued, less, others, ?_, fun ticket => ?_⟩
  · rw [course, Course.next, serves.worker]
  · rw [course, Course.next, ← serves.worker, answer?_answered, serves.answers, List.getElem?_append,
      serves.answers_length]
    -- Only the request just taken has an answer that is new.
    by_cases newest : ticket.number = taken
    · have same : (⟨taken⟩ : Ticket) = ticket := by rw [← newest]
      simp [same, newest]
    · have differ : (⟨taken⟩ : Ticket) ≠ ticket := fun same => newest (congrArg Ticket.number same).symm
      have length := serves.answers_length
      rw [if_neg differ]
      split
      · rfl
      · have late : (Course.of (made.take taken) store).answers.length ≤ ticket.number := by omega
        rw [List.getElem?_eq_none late, List.getElem?_eq_none]
        rw [List.length_singleton]
        omega

theorem length_queue (serves : Serves store made taken scheduler) : taken + scheduler.queue.length = made.length := by
  have left := serves.some_left
  rw [serves.queue, List.length_drop, numbered_length]
  omega

theorem repeated (serves : Serves store made taken scheduler) (rounds : Nat)
    (enough : rounds ≤ scheduler.queue.length) :
    Serves store made (taken + rounds) (rounds.repeat Scheduler.serve scheduler) := by
  induction rounds with
  | zero => exact serves
  | succ rounds ih =>
    have before := ih (by omega)
    have pending : (rounds.repeat Scheduler.serve scheduler).queue ≠ [] := by
      intro none_left
      have all := before.length_queue
      have some_left := serves.length_queue
      rw [none_left, List.length_nil] at all
      omega
    exact before.serve pending

theorem drain (serves : Serves store made taken scheduler) : Serves store made made.length scheduler.drain := by
  have served := serves.repeated scheduler.queue.length (Nat.le_refl _)
  rwa [serves.length_queue] at served

/-- Whoever waits gets the answer to the own request, whoever else waits or does not. -/
theorem wait (serves : Serves store made taken scheduler) {ticket : Ticket} (mine : ticket.number < made.length) :
    (Course.of made store).answers[ticket.number]? = some (scheduler.wait ticket).1 := by
  have told := serves.drain.answers ticket
  rw [List.take_length] at told
  have inside : ticket.number < (Course.of made store).answers.length := by rwa [Course.answers_length]
  show _ = some ((scheduler.drain.answer? ticket).getD (.error .schedulerShutdown))
  rw [told, List.getElem?_eq_getElem inside]
  rfl

theorem shutdown (serves : Serves store made taken scheduler) :
    scheduler.shutdown.worker = ⟨(Course.of made store).worker.store, false⟩ ∧ scheduler.shutdown.queue = [] := by
  have served := serves.drain
  constructor
  · have worker := served.worker
    rw [List.take_length] at worker
    show Worker.mk scheduler.drain.worker.store false = _
    rw [worker]
  · show scheduler.drain.queue = []
    rw [served.queue, List.drop_eq_nil_of_le (Nat.le_of_eq numbered_length)]

end Serves

omit [BackingStore σ] in
theorem enqueue_ok {ticket : Ticket} (queued : scheduler.enqueue request = (.ok ticket, later)) :
    ticket = ⟨scheduler.issued⟩ ∧ later = scheduler.accepting request := by
  unfold enqueue at queued
  split at queued
  · cases queued
  · cases queued
    exact ⟨rfl, rfl⟩

omit [BackingStore σ] in
theorem enqueue_error {error : Error} (refused : scheduler.enqueue request = (.error error, later)) :
    error = .schedulerShutdown ∧ scheduler.worker.running = false ∧ later = scheduler := by
  unfold enqueue at refused
  split at refused
  · rename_i gone
    cases refused
    exact ⟨rfl, by simpa using gone, rfl⟩
  · cases refused

/-! ### Runs -/

variable {events : List Event} {event : Event} {desk next : Desk σ}

/-- What there is once the worker is through with what it is at: a request in hand still is to be executed, an answer
in hand is as good as sent. -/
def Desk.settled (desk : Desk σ) : Scheduler σ :=
  match desk.hand with
  | .empty | .gone => desk.scheduler
  | .holding ticket request => { desk.scheduler with queue := (ticket, request) :: desk.scheduler.queue }
  | .finished ticket answer => { desk.scheduler with answers := (ticket, answer) :: desk.scheduler.answers }

omit [BackingStore σ] in
theorem Desk.settled_idle (idle : desk.hand = .empty ∨ desk.hand = .gone) : desk.settled = desk.scheduler := by
  unfold settled
  rcases idle with idle | idle <;> rw [idle]

omit [BackingStore σ] in
theorem Desk.settled_worker (desk : Desk σ) : desk.settled.worker = desk.scheduler.worker := by
  unfold settled
  split <;> rfl

omit [BackingStore σ] in
theorem Desk.settled_accepting (hand : next.hand = desk.hand)
    (more : next.scheduler = desk.scheduler.accepting request) :
    next.settled = desk.settled.accepting request ∧ desk.settled.issued = desk.scheduler.issued := by
  unfold settled
  rw [hand, more]
  split <;> exact ⟨rfl, rfl⟩

/-- Nothing comes after the message that tells the worker to leave. -/
structure Desk.Closes (desk : Desk σ) : Prop where
  closing : ∀ {ahead : Nat}, desk.phase = .closing ahead → ahead = desk.scheduler.queue.length
  left : desk.hand = .gone → desk.phase ≠ .serving ∧ desk.scheduler.queue = []
  closed : desk.phase = .closed → desk.hand = .gone

namespace Desk.Closes

omit [BackingStore σ] in
theorem of_serving (serving : desk.phase = .serving) (here : desk.hand ≠ .gone) : desk.Closes where
  closing closing := by cases serving.symm.trans closing
  left gone := absurd gone here
  closed closed := by cases serving.symm.trans closed

theorem step (closes : desk.Closes) (step : Step desk event next) : next.Closes := by
  cases step with
  | accepted serving => exact of_serving serving fun gone => (closes.left gone).1 serving
  | slipped serving => exact of_serving serving fun gone => (closes.left gone).1 serving
  | refused serving => exact of_serving serving fun gone => (closes.left gone).1 serving
  | @taken _ _ rest idle head =>
    refine ⟨fun closing => ?_, nofun, fun closed => ?_⟩
    · obtain ⟨all, before, rfl⟩ := Phase.advanced_closing closing
      have length := closes.closing before
      rw [head, List.length_cons] at length
      show all - 1 = rest.length
      omega
    · cases idle.symm.trans (closes.closed (Phase.advanced_closed closed))
  | executed holding => exact ⟨closes.closing, nofun, fun closed => by cases holding.symm.trans (closes.closed closed)⟩
  | sent finished => exact ⟨closes.closing, nofun, fun closed => by cases finished.symm.trans (closes.closed closed)⟩
  | left idle told =>
    have none_left := (closes.closing told).symm
    refine ⟨closes.closing, fun _ => ⟨fun serving => ?_, List.length_eq_zero_iff.mp none_left⟩, fun _ => rfl⟩
    cases told.symm.trans serving
  | waited => exact ⟨closes.closing, closes.left, closes.closed⟩
  | forgotten => exact ⟨closes.closing, closes.left, closes.closed⟩
  | closing serving =>
    refine ⟨fun closing => ?_, fun gone => absurd serving (closes.left gone).1, nofun⟩
    cases closing
    rfl
  | closed closing left => exact ⟨nofun, fun _ => ⟨nofun, (closes.left left).2⟩, fun _ => left⟩

end Desk.Closes

theorem Run.closes (run : Run store events desk) : desk.Closes := by
  induction run with
  | start => exact .of_serving rfl nofun
  | step before step ih => exact ih.step step

structure InOrder (store : σ) (events : List Event) (desk : Desk σ) (taken : Nat) : Prop
    extends Serves store (requests events) taken desk.settled where
  fresh : ∀ {ticket : Ticket} {answer : Except Error Page}, desk.hand = .finished ticket answer →
    desk.scheduler.answer? ticket = none
  /-- The tickets were handed out in the order of the requests. -/
  tickets : events.filterMap Event.accepted? = numbered (requests events)
  waited : ∀ {ticket : Ticket} {answer : Except Error Page}, .waited ticket answer ∈ events →
    (Course.of (requests events) store).answers[ticket.number]? = some answer
  refused : ∀ {request : Request} {error : Error}, .refused request error ∈ events →
    error = .schedulerShutdown ∧ (Course.of (requests events) store).worker.running = false

omit [BackingStore σ] in
theorem requests_append_none (silent : event.accepted? = none) : requests (events ++ [event]) = requests events := by
  simp [requests, silent]

omit [BackingStore σ] in
theorem requests_append_some (ticket : Ticket) (request : Request) :
    requests (events ++ [.accepted ticket request]) = requests events ++ [request] := by
  simp [requests, Event.accepted?]

namespace InOrder

theorem queued (ordered : InOrder store events desk taken) (request : Request) (hand : next.hand = desk.hand)
    (more : next.scheduler = desk.scheduler.accepting request) :
    InOrder store (events ++ [.accepted ⟨desk.scheduler.issued⟩ request]) next taken where
  toServes := by
    rw [requests_append_some, (Desk.settled_accepting hand more).1]
    exact ordered.toServes.accepting request
  fresh {ticket answer} finished := by
    rw [more]
    exact ordered.fresh (hand ▸ finished)
  tickets := by
    rw [requests_append_some, numbered_append_one, ← ordered.issued, ← ordered.tickets, List.filterMap_append,
      (Desk.settled_accepting hand more).2]
    rfl
  waited {ticket answer} member := by
    rw [requests_append_some]
    rcases List.mem_append.mp member with earlier | last
    · exact Course.answers_append (ordered.waited earlier) [request]
    · cases List.mem_singleton.mp last
  refused {other error} member := by
    rw [requests_append_some]
    rcases List.mem_append.mp member with earlier | last
    · obtain ⟨told, gone⟩ := ordered.refused earlier
      exact ⟨told, (congrArg Worker.running (Course.stopped_append gone [request]).1).trans gone⟩
    · cases List.mem_singleton.mp last

theorem silent {now : Nat} (ordered : InOrder store events desk taken) (silent : event.accepted? = none)
    (serves : Serves store (requests events) now next.settled)
    (fresh : ∀ {ticket answer}, next.hand = .finished ticket answer → next.scheduler.answer? ticket = none)
    (waited : ∀ {ticket answer}, event = .waited ticket answer →
      (Course.of (requests events) store).answers[ticket.number]? = some answer)
    (refused : ∀ {request error}, event = .refused request error →
      error = .schedulerShutdown ∧ (Course.of (requests events) store).worker.running = false) :
    InOrder store (events ++ [event]) next now where
  toServes := by rwa [requests_append_none silent]
  fresh := fresh
  tickets := by
    rw [requests_append_none silent, ← ordered.tickets]
    simp [silent]
  waited {ticket answer} member := by
    rw [requests_append_none silent]
    rcases List.mem_append.mp member with earlier | last
    · exact ordered.waited earlier
    · exact waited (List.mem_singleton.mp last).symm
  refused {request error} member := by
    rw [requests_append_none silent]
    rcases List.mem_append.mp member with earlier | last
    · exact ordered.refused earlier
    · exact refused (List.mem_singleton.mp last).symm

/-- What the others do leaves the worker and the queue alone. -/
theorem aside (ordered : InOrder store events desk taken) (silent : event.accepted? = none)
    (hand : next.hand = desk.hand) (scheduler : next.scheduler = desk.scheduler)
    (waited : ∀ {ticket answer}, event = .waited ticket answer →
      (Course.of (requests events) store).answers[ticket.number]? = some answer)
    (refused : ∀ {request error}, event = .refused request error →
      error = .schedulerShutdown ∧ (Course.of (requests events) store).worker.running = false) :
    InOrder store (events ++ [event]) next taken := by
  have settled : next.settled = desk.settled := by
    unfold Desk.settled
    rw [hand, scheduler]
  apply ordered.silent silent (settled ▸ ordered.toServes) _ waited refused
  rw [hand, scheduler]
  exact ordered.fresh

theorem owed (ordered : InOrder store events desk taken) {ticket : Ticket} {answer : Except Error Page}
    (answered : desk.scheduler.answer? ticket = some answer) :
    (Course.of (requests events) store).answers[ticket.number]? = some answer := by
  have settled : desk.settled.answer? ticket = some answer := by
    unfold Desk.settled
    split
    · exact answered
    · exact answered
    · exact answered
    · rename_i other _ finished
      -- The answer in hand has not been sent, so it is not the one that was found.
      have differ : other ≠ ticket := by
        rintro rfl
        rw [ordered.fresh finished] at answered
        cases answered
      exact (answer?_answered _ _ _ _ _ _).trans ((if_neg differ).trans answered)
  rw [ordered.answers] at settled
  have told := Course.answers_append settled ((requests events).drop taken)
  rwa [List.take_append_drop] at told

theorem gone (ordered : InOrder store events desk taken) (gone : desk.scheduler.worker.running = false) :
    (Course.of (requests events) store).worker.running = false := by
  rw [← Desk.settled_worker, ordered.worker] at gone
  have stays := (Course.stopped_append gone ((requests events).drop taken)).1
  rw [List.take_append_drop] at stays
  rw [stays, gone]

theorem took (ordered : InOrder store events desk taken) {ticket : Ticket} {rest : List (Ticket × Request)}
    (idle : desk.hand = .empty) (head : desk.scheduler.queue = (ticket, request) :: rest) :
    InOrder store (events ++ [.taken])
      { desk with
        scheduler := { desk.scheduler with queue := rest }
        hand := .holding ticket request
        phase := desk.phase.advanced } taken := by
  have settled : { desk.scheduler with queue := (ticket, request) :: rest } = desk.settled := by
    rw [Desk.settled_idle (.inl idle), ← head]
  have serves := ordered.toServes
  rw [← settled] at serves
  exact ordered.silent rfl serves nofun nofun nofun

theorem performed (ordered : InOrder store events desk taken) {ticket : Ticket}
    (holding : desk.hand = .holding ticket request) :
    InOrder store (events ++ [.executed])
      { desk with
        scheduler := { desk.scheduler with worker := (desk.scheduler.worker.perform request).2 }
        hand := .finished ticket (desk.scheduler.worker.perform request).1 } (taken + 1) := by
  have settled : desk.settled = { desk.scheduler with queue := (ticket, request) :: desk.scheduler.queue } := by
    unfold Desk.settled
    rw [holding]
  have serves := ordered.toServes
  rw [settled] at serves
  refine ordered.silent rfl (serves.serve (List.cons_ne_nil _ _)) (fun same => ?_) nofun nofun
  cases same
  exact (serves.head rfl).2.1

theorem told (ordered : InOrder store events desk taken) {ticket : Ticket} {answer : Except Error Page}
    (finished : desk.hand = .finished ticket answer) :
    InOrder store (events ++ [.sent])
      { desk with
        scheduler := { desk.scheduler with answers := (ticket, answer) :: desk.scheduler.answers }
        hand := .empty } taken := by
  have settled : desk.settled = { desk.scheduler with answers := (ticket, answer) :: desk.scheduler.answers } := by
    unfold Desk.settled
    rw [finished]
  exact ordered.silent rfl (settled ▸ ordered.toServes) nofun nofun nofun

theorem step (ordered : InOrder store events desk taken) (step : Step desk event next) :
    ∃ now, InOrder store (events ++ [event]) next now := by
  cases step with
  | accepted serving queued =>
    obtain ⟨rfl, rfl⟩ := enqueue_ok queued
    exact ⟨taken, ordered.queued _ rfl rfl⟩
  | slipped serving gone => exact ⟨taken, ordered.queued _ rfl rfl⟩
  | refused serving refused =>
    obtain ⟨rfl, gone, rfl⟩ := enqueue_error refused
    refine ⟨taken, ordered.aside rfl rfl rfl nofun fun same => ?_⟩
    cases same
    exact ⟨rfl, ordered.gone gone⟩
  | taken idle head => exact ⟨taken, ordered.took idle head⟩
  | executed holding => exact ⟨taken + 1, ordered.performed holding⟩
  | sent finished => exact ⟨taken, ordered.told finished⟩
  | left idle told =>
    have settled : desk.settled = desk.scheduler := Desk.settled_idle (.inl idle)
    exact ⟨taken, ordered.silent rfl (settled ▸ ordered.toServes) nofun nofun nofun⟩
  | waited mine answered =>
    refine ⟨taken, ordered.aside rfl rfl rfl (fun same => ?_) nofun⟩
    cases same
    exact ordered.owed answered
  | forgotten mine => exact ⟨taken, ordered.aside rfl rfl rfl nofun nofun⟩
  | closing serving => exact ⟨taken, ordered.aside rfl rfl rfl nofun nofun⟩
  | closed closing left => exact ⟨taken, ordered.aside rfl rfl rfl nofun nofun⟩

end InOrder

theorem Run.inOrder (run : Run store events desk) : ∃ taken, InOrder store events desk taken := by
  induction run with
  | start => exact ⟨0, Serves.start store, nofun, rfl, nofun, nofun⟩
  | step before step ih =>
    obtain ⟨taken, ordered⟩ := ih
    exact ordered.step step

/-- The first `taken` requests are through. The store has executed them and nothing else, and whoever waits gets the
answer that executing all of them in turn gives. -/
structure Faithful (store : σ) (events : List Event) (desk : Desk σ) (taken : Nat) : Prop
    extends InOrder store events desk taken, desk.Closes where
  /-- The worker does not leave before it is through with every request. -/
  complete : desk.hand = .gone → taken = (requests events).length
  in_turn : (Course.of ((requests events).take taken) store).executed <+: (requests events).take taken
  executed : desk.scheduler.worker.running = true →
    (Course.of ((requests events).take taken) store).executed = (requests events).take taken
  sees : ∀ seen : σ → List Request, Course.Records seen →
    seen desk.scheduler.worker.store = seen store ++ (Course.of ((requests events).take taken) store).executed
  wait : ∀ ticket : Ticket, ticket.number < (requests events).length →
    (Course.of (requests events) store).answers[ticket.number]? = some (desk.settled.wait ticket).1
  shutdown : desk.settled.shutdown.worker = ⟨(Course.of (requests events) store).worker.store, false⟩ ∧
    desk.settled.shutdown.queue = []
  /-- After a request on which the store gives up there is no other that it sees. -/
  aborted : ∀ {before after : List Request} {request : Request} {violation : Violation} {last : σ},
    requests events = before ++ request :: after → (Course.of before store).worker.running = true →
    Worker.execute request (Course.of before store).worker.store = .error (.violation violation) last →
    (Course.of (requests events) store).executed = before ++ [request] ∧
      (Course.of (requests events) store).worker = ⟨last, false⟩ ∧
      ∀ answer ∈ (Course.of (requests events) store).answers.drop before.length, answer = .error .schedulerShutdown

/-- In whatever order things happen, requests are executed in the order in which they were accepted, and each of them
is answered as if there were no queue. -/
theorem Run.first_come_first_served (run : Run store events desk) : ∃ taken, Faithful store events desk taken := by
  obtain ⟨taken, ordered⟩ := run.inOrder
  refine ⟨taken, ordered, run.closes, fun gone => ?_, Course.executed_prefix _ store, fun running => ?_,
    fun seen records => ?_, fun ticket => ordered.toServes.wait, ordered.toServes.shutdown,
    fun all running aborts => ?_⟩
  · have all := ordered.toServes.length_queue
    rwa [Desk.settled_idle (.inr gone), (run.closes.left gone).2] at all
  · rw [← Desk.settled_worker, ordered.worker] at running
    exact Course.executed_of_running running
  · rw [← Desk.settled_worker, ordered.worker]
    exact records.of _ store
  · rw [all]
    exact Course.aborted running aborts

/-- A page is written and read. The read is waited for first, nobody waits for the write, and the scheduler closes. -/
theorem first_come_first_served_two_requests : ∃ (events : List Event) (desk : Desk RamStore) (taken : Nat),
    Run RamStore.empty events desk ∧ desk.phase = .closed ∧
      .waited ⟨1⟩ (.ok (.filled pageSize 7)) ∈ events ∧ Faithful RamStore.empty events desk taken := by
  have written : Run RamStore.empty _
      { scheduler := (start RamStore.empty).accepting (.write ⟨0⟩ (.filled pageSize 7)), futures := [⟨0⟩] } :=
    Run.start.step (.accepted rfl rfl)
  have both : Run RamStore.empty _
      { scheduler := ((start RamStore.empty).accepting (.write ⟨0⟩ (.filled pageSize 7))).accepting (.read ⟨0⟩)
        futures := [⟨1⟩, ⟨0⟩] } :=
    written.step (.accepted rfl rfl)
  have once := ((both.step (.taken rfl rfl nofun)).step (.executed rfl)).step (.sent rfl)
  have twice := ((once.step (.taken rfl rfl nofun)).step (.executed rfl)).step (.sent rfl)
  have reader : (⟨1⟩ : Ticket) ∈ [⟨1⟩, ⟨0⟩] := by decide
  have writer : (⟨0⟩ : Ticket) ∈ [⟨0⟩] := by decide
  have heard : Run RamStore.empty (_ ++ [.waited ⟨1⟩ (.ok (.filled pageSize 7))]) _ :=
    twice.step (.waited reader rfl)
  have run := (((heard.step (.forgotten writer)).step (.closing rfl)).step (.left rfl rfl)).step (.closed rfl rfl)
  obtain ⟨taken, faithful⟩ := run.first_come_first_served
  exact ⟨_, _, taken, run, rfl, by simp, faithful⟩

end Scheduler

end PagedIndex
