import Mathlib
import PagedIndex.Proofs.Table.Reached

/-!
# When an insertion says no

An insertion is refused just when the buckets of its directory are as large as the number of entries that agree
with the new one in all bits the directory may ever use. It never runs out of passes: each of them settles the
matter or takes the bucket one bit further.
-/

namespace PagedIndex.Table

open DirectoryState
open Pool (Models)

variable {K V σ : Type} [FixedWidth K] [FixedWidth V] [BackingStore σ] [PageKeeper σ] {table : Table K V}
  {session : Session σ} {entries : List (K × V)} {key : K} {value : V}

/-- So many passes of an insertion, each of which left the answer open. -/
inductive Passes (table : Table K V) (directory : PageId) (key : K) (value : V) : Nat → Pool σ → Pool σ → Prop where
  | zero (pool : Pool σ) : Passes table directory key value 0 pool pool
  | split {passes : Nat} {pool middle later : Pool σ}
      (done : table.insertOrSplit directory key value pool = .ok none middle)
      (rest : Passes table directory key value passes middle later) :
      Passes table directory key value (passes + 1) pool later

/-- What a pool shows of a directory. -/
def shown (pool : Pool σ) (directory : PageId) : DirectoryState := Directory.stateOf (pool.visible directory)

variable [RoundTrips K] [RoundTrips V]

theorem Passes.reach {leases : List Lease} {directory : PageId} {passes : Nat} {pool later : Pool σ}
    (run : Passes table directory key value passes pool later) (configured : table.Configured) {memory : Memory}
    {state : DirectoryState} {limit : Nat} (models : Models leases False memory pool)
    (houses : Houses table.hash memory.toPages directory state limit entries) (pins : memory.pins = {directory}) :
    (shown later directory).reach (table.hash key) = state.reach (table.hash key) + passes ∧
      (shown later directory).reach (table.hash key) ≤ state.maxDepth := by
  -- Induction on the passes: the later ones start from the directory as the first has split it.
  induction run generalizing memory state with
  | zero pool =>
    have seen : pool.visible directory = memory.content directory := models.pages.content _ houses.denotes.written
    rw [shown, seen, houses.denotes.state_eq]
    exact ⟨rfl, houses.shelves.formed.reach_le _⟩
  | @split passes pool middle later done rest ih =>
    have answers : Pool.Answers (table.insertOrSplit directory key value) pool (.ok none) middle := done
    obtain ⟨next, models, _, parted⟩ := (insertOrSplit_runs configured houses pins .of_nothing).answers models answers
    obtain ⟨last, ends, deepens⟩ := parted.houses
    obtain ⟨reached, bounded⟩ := ih models ends (parted.pins.trans pins)
    have further := deepens.reach
    rw [deepens.maxDepth] at bounded
    exact ⟨by omega, bounded⟩

/-- An insertion that comes to an answer says no just when the rivals of its entry fill a bucket. Its passes take
the bucket of the entry one bit further each, and there are never more of them than the directory has bits. -/
theorem Reached.insert_capacity [Reopening σ] (reached : Reached table session) :
    ∃ entries, Stores table session.pages entries ∧ ∀ key value,
      (∀ inserted pool, table.insert key value session.pool = .ok inserted pool →
        (inserted = false ↔
          table.rivals session.pages (table.hash key) entries = table.sizeLimit session.pages (table.hash key))) ∧
      ∀ directory pinned passes pool, table.pinOrMakeDirectory (table.hash key) session.pool = .ok directory pinned →
        Passes table directory key value passes pinned pool →
        (shown pool directory).reach (table.hash key) = (shown pinned directory).reach (table.hash key) + passes ∧
          passes ≤ table.depthLimit session.pages (table.hash key) := by
  obtain ⟨entries, alive⟩ := reached.alive
  refine ⟨entries, alive.stores, fun key value => ⟨fun inserted pool done => ?_, ?_⟩⟩
  · have answers : Pool.Answers (table.insert key value) session.pool (.ok inserted) pool := done
    exact (alive.inserted answers).2.2 inserted rfl
  · intro directory pinned passes pool done run
    have answers : Pool.Answers (table.pinOrMakeDirectory (table.hash key)) session.pool (.ok directory) pinned := done
    obtain ⟨memory, models, found⟩ :=
      (pinOrMakeDirectory_runs alive.seen rfl (table.hash key) .of_nothing).answers (alive.kept.models False.elim)
        answers
    have valid := found.valid
    rw [found.root] at valid
    obtain ⟨state, limit, houses⟩ := found.stores.rooted valid
    rw [← found.root] at houses
    obtain ⟨further, bounded⟩ := run.reach found.stores.configured models houses found.pins
    have seen : shown pinned directory = state := by
      have same : pinned.visible directory = memory.content directory := models.pages.content _ houses.denotes.written
      rw [shown, same]
      exact houses.denotes.state_eq
    have depth : state.maxDepth = table.depthLimit session.pages (table.hash key) := (found.limits houses).1
    rw [seen, ← depth]
    exact ⟨further, by omega⟩

/-- With two bits and one entry to a bucket, an entry that agrees with one that is there is refused, another is not. -/
theorem insert_capacity_split : ∃ (table : Table UInt32 UInt32) (start session : Session RamStore)
    (refused taken : Pool RamStore) (entries : List (UInt32 × UInt32)),
    Life table start [.inserted 0 10 (.ok true), .inserted 1 11 (.ok true)] session ∧
      Stores table session.pages entries ∧
      table.insert 4 14 session.pool = .ok false refused ∧ table.insert 2 12 session.pool = .ok true taken ∧
      table.rivals session.pages (table.hash 4) entries = table.sizeLimit session.pages (table.hash 4) ∧
      table.rivals session.pages (table.hash 2) entries ≠ table.sizeLimit session.pages (table.hash 2) := by
  obtain ⟨table, start, session, created, life, paired⟩ := exists_split_life
  obtain ⟨refused, no, -⟩ :=
    paired.alive.insert_single paired.single paired.eased paired.room 4 14 (by rw [paired.hashes])
  obtain ⟨taken, yes, -⟩ :=
    paired.alive.insert_single paired.single paired.eased paired.room 2 12 (by rw [paired.hashes])
  obtain ⟨entries, stores, capacity⟩ := ((Reached.created created).lived life).insert_capacity
  exact ⟨table, start, session, refused, taken, entries, life, stores, no, yes,
    ((capacity 4 14).1 false refused no).mp rfl, fun full => nomatch ((capacity 2 12).1 true taken yes).mpr full⟩

end PagedIndex.Table
