import Mathlib
import PagedIndex.Proofs.Table.Reached
import PagedIndex.Proofs.Table.Verifying

/-!
# Calls that are always answered

Over a store that answers, and with three frames that nobody else has pinned, a table answers every call: no
error comes up and nothing is violated, as long as there are numbers for new pages. That its options pass their
check is all that is asked of them.
-/

namespace PagedIndex

open Pool (Eased Runs left)

namespace Pool

variable {σ α : Type} [BackingStore σ]

/-- An action is answered, and leaves a pool that is as fit for the next one. -/
def Prompt (leases : List Lease) (action : Action σ α) (pool : Pool σ) : Prop :=
  ∃ value later, action pool = .ok value later ∧ Eased leases later

/-- An action is answered if not all numbers for pages are taken when it ends. -/
def Answered (leases : List Lease) (action : Action σ α) (pool : Pool σ) : Prop :=
  (left (action pool)).next.toNat + 1 < wordBound → Prompt leases action pool

variable [PageKeeper σ] {leases : List Lease} {action : Action σ α} {memory : Memory} {ok : α → Memory → Prop}
  {failed : Memory → Prop} {pool : Pool σ}

theorem Runs.answered (runs : Runs leases ⟨True, True⟩ action memory ok failed)
    (models : Models leases True memory pool) : Answered leases action pool := by
  intro room
  obtain ⟨value, later, _, done, models, _⟩ := runs.total models fun _ => room
  exact ⟨value, later, done, models.eased trivial⟩

/-- An action that makes no page has no need of a number. -/
theorem Runs.prompt (runs : Runs leases ⟨True, False⟩ action memory ok failed)
    (models : Models leases True memory pool) : Prompt leases action pool := by
  obtain ⟨value, later, _, done, models, _⟩ := runs.total models False.elim
  exact ⟨value, later, done, models.eased trivial⟩

end Pool

namespace Table

variable {K V σ : Type} [FixedWidth K] [FixedWidth V] [BackingStore σ] [PageKeeper σ] {table : Table K V}
  {session : Session σ} {entries : List (K × V)} {key : K} {value : V} {options : Options}

/-- Every call of a table is answered. -/
structure Responsive (table : Table K V) (leases : List Lease) (pool : Pool σ) : Prop where
  insert : ∀ key value, Pool.Answered leases (table.insert key value) pool
  find : ∀ key, Pool.Prompt leases (table.find key) pool
  remove : ∀ key, Pool.Prompt leases (table.remove key) pool
  verify : Pool.Prompt leases table.verify pool

theorem Alive.attach_prompt (alive : Alive table session entries) (eased : Eased session.leases session.pool)
    (checked : options.check K V = .ok ()) (name : String) : ∃ opened later,
      Table.attach name table.compare table.hash table.header options session.pool = .ok opened later ∧
      Eased session.leases later ∧ Alive opened { session with pool := later } entries := by
  obtain ⟨_, later, _, done, models, rfl, rfl, stores⟩ :=
    (attach_runs checked alive.seen rfl).total (alive.kept.models fun _ => eased) False.elim
  obtain ⟨kept, shown⟩ := alive.kept.called models rfl (UInt32.le_refl _)
  exact ⟨_, later, done, models.eased trivial, kept, stores.shown shown⟩

variable [RoundTrips K] [RoundTrips V]

theorem Alive.responsive (alive : Alive table session entries) (eased : Eased session.leases session.pool) :
    Responsive table session.leases session.pool := by
  have models := alive.kept.models fun _ : True => eased
  exact {
    insert := fun key value => Runs.answered (insert_runs alive.seen rfl (.inl trivial)) models
    find := fun key => (find_runs alive.seen rfl key).prompt models
    remove := fun key => (remove_runs alive.seen rfl key).prompt models
    verify := (verify_runs alive.seen rfl).prompt models }

/-- An insertion makes no more pages than a directory has bits, and two more. -/
theorem Alive.insert_room (alive : Alive table session entries) (eased : Eased session.leases session.pool)
    (room : session.pool.next.toNat + (maxDirectoryDepth + 3) < wordBound) (key : K) (value : V) :
    (left (table.insert key value session.pool)).next.toNat + 1 < wordBound := by
  have inserting : Runs session.leases ⟨True, False⟩ (table.insert key value : Pool.Action σ Bool) session.memory _ _ :=
    insert_runs alive.seen rfl (.inr room)
  obtain ⟨_, later, _, done, models, inserted⟩ := inserting.total (alive.kept.models fun _ => eased) False.elim
  have made := inserted.grown.made
  change _ ≤ session.pool.next.toNat + _ at made
  rw [done]
  change later.next.toNat + 1 < wordBound
  rw [models.next]
  omega

/-- Whatever a pool is used for beside them, tables of checked options are made, opened and used in it without any
call failing, as long as the store answers, three frames are not pinned by others and page numbers last. -/
theorem answers_all [Reopening σ] (checked : options.check K V = .ok ()) (name : String) (compare : K → K → Ordering)
    (hash : K → UInt32) :
    (∀ (store : σ) events (session : Session σ), Session.Run store events session →
      Eased session.leases session.pool →
      (left (Table.create (V := V) name compare hash options session.pool)).next.toNat + 1 < wordBound →
      ∃ (table : Table K V) (pool : Pool σ), Table.create name compare hash options session.pool = .ok table pool ∧
        Eased session.leases pool ∧ Responsive table session.leases pool) ∧
    (∀ (table : Table K V) (session : Session σ), Reached table session → Eased session.leases session.pool →
      Responsive table session.leases session.pool ∧
      ∃ (opened : Table K V) (pool : Pool σ),
        Table.attach name table.compare table.hash table.header options session.pool = .ok opened pool ∧
        ∀ deeds (last : Session σ), Life opened { session with pool } deeds last → Eased last.leases last.pool →
          Responsive opened last.leases last.pool) ∧
    ∀ (table : Table K V) (session : Session σ) (pool : Pool σ), Reached table session →
      Restarted table session pool → Eased [] pool →
      Pool.Prompt [] (Table.attach (V := V) name table.compare table.hash table.header options) pool := by
  refine ⟨fun store events session run eased room => ?_, fun table session reached eased => ?_,
    fun table session pool reached restarted eased => ?_⟩
  · have creating : Runs session.leases ⟨True, True⟩
        (Table.create name compare hash options : Pool.Action σ (Table K V)) session.memory _ _ :=
      create_runs checked rfl (.inl trivial)
    obtain ⟨table, pool, done, eased⟩ := creating.answered (run.kept.models fun _ => eased) room
    have created := Created.made run name compare hash options done
    exact ⟨table, pool, done, eased, created.alive.responsive eased⟩
  · obtain ⟨entries, alive⟩ := reached.alive
    obtain ⟨opened, pool, done, _, living⟩ := alive.attach_prompt eased checked name
    refine ⟨alive.responsive eased, opened, pool, done, fun deeds last life eased => ?_⟩
    obtain ⟨list, still, _⟩ := life.alive living
    exact still.responsive eased
  · obtain ⟨entries, alive⟩ := reached.alive
    obtain ⟨kept, stores, _⟩ := alive.restarted restarted
    exact (attach_runs checked stores rfl).prompt (kept.models fun _ => eased)

/-- A pool of three frames in memory is enough to make a table and to put an entry into it. -/
theorem answers_all_three_frames :
    ∃ (pool first second : Pool RamStore) (table : Table UInt32 UInt32) (inserted : Bool),
      Pool.create 3 2 RamStore.empty = .ok pool ∧
      Table.create "t" Ord.compare (fun key => key) {} pool = .ok table first ∧
      table.insert 7 8 first = .ok inserted second ∧ Pool.Prompt [] table.verify first := by
  obtain ⟨pool, begun, _, made, run, eased, creates, -, next⟩ := exists_founded {} rfl
  have room : (left (Table.create (V := UInt32) "t" Ord.compare (fun key : UInt32 => key) {} pool)).next.toNat + 1 <
      wordBound := by
    rw [creates]
    change begun.next.toNat + 1 < wordBound
    rw [next]
    decide
  have checked : ({} : Options).check UInt32 UInt32 = .ok () := rfl
  obtain ⟨table, first, done, eased, responsive⟩ :=
    (answers_all checked "t" Ord.compare fun key => key).1 _ _ _ run eased room
  have created := Created.made run _ _ _ _ done
  have begins : first.next = 1 := by
    cases creates.symm.trans done
    exact next
  have enough := created.alive.insert_room eased (by
    change first.next.toNat + _ < _
    rw [begins]
    decide) 7 8
  obtain ⟨inserted, second, inserts, -⟩ := responsive.insert 7 8 enough
  exact ⟨pool, first, second, table, inserted, made, done, inserts, responsive.verify⟩

end Table

end PagedIndex
