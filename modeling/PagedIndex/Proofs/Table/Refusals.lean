import Mathlib
import PagedIndex.Proofs.Table.Stranding

/-!
# Calls that come to nothing

An insertion that fails or is refused, at whatever step, leaves all entries where they are found, and whatever
directory it has made is used from then on. A removal that fails may have removed the entries; it leaves the
table in no other state than one of these two.
-/

namespace PagedIndex.Table

open DirectoryState

variable {K V σ : Type} [FixedWidth K] [FixedWidth V] {table : Table K V} {pages : Pages} {entries : List (K × V)}
  {key : K} {value : V}

/-- An entry lies in the bucket that a directory page lists for its hash. -/
def Lies (table : Table K V) (pages : Pages) (directory : PageId) (key : K) (value : V) : Prop :=
  ∃ slot bucket list, bucketIn (table.hash key) (pages.content directory) = .ok (slot, bucket) ∧
    bucket.isValid = true ∧ Bucket.entries (⟨pages.content bucket⟩ : Bucket K V pageSize) = .ok list ∧
    (key, value) ∈ list

theorem Stores.lies (stores : Stores table pages entries) (member : (key, value) ∈ entries) :
    (table.root pages (table.hash key)).isValid = true ∧
      table.Lies pages (table.root pages (table.hash key)) key value := by
  obtain ⟨valid, here, state, limit, houses, full⟩ := stores.housed member
  have holds := houses.shelves.holds _ (mentions_home full)
  exact ⟨valid, _, _, _, houses.bucketIn (table.hash key), full, holds.entries_ok,
    List.mem_filter.mpr ⟨here, decide_eq_true rfl⟩⟩

variable [BackingStore σ] [PageKeeper σ] {session : Session σ}

variable [RoundTrips K] [RoundTrips V]

/-- An insertion that does not answer `true` changes nothing that is found, whatever failed and however often it
had split before. Every directory that is there afterwards stays, and the next entry that is routed to it goes
into it. -/
theorem Reached.insert_atomic [Reopening σ] (reached : Reached table session)
    (agrees : Agrees table.compare table.hash) {answer : Except Error Bool} {pool : Pool σ}
    (done : Pool.Answers (table.insert key value) session.pool answer pool) (refused : answer ≠ .ok true) :
    (∃ entries, Stores table session.pages entries ∧ Stores table (Session.pages { session with pool }) entries) ∧
    (∀ sought old new before after, table.find sought session.pool = .ok old before →
      table.find sought pool = .ok new after → new = old) ∧
    ∀ more (later : Session σ), Life table { session with pool } more later →
      ∀ other, (table.root (Session.pages { session with pool }) (table.hash other)).isValid = true →
      ∀ content answer last, Pool.Answers (table.insert other content) later.pool answer last →
        let directory := table.root (Session.pages { session with pool }) (table.hash other)
        table.root (Session.pages { later with pool := last }) (table.hash other) = directory ∧
          (answer = .ok true → table.Lies (Session.pages { later with pool := last }) directory other content) := by
  obtain ⟨entries, alive⟩ := reached.alive
  obtain ⟨still, _, _⟩ := alive.inserted done
  rw [if_neg refused] at still
  refine ⟨⟨entries, alive.stores, still.stores⟩, fun sought old new before after first second => ?_, ?_⟩
  · have was := (alive.found (show Pool.Answers (table.find sought) session.pool (.ok old) before from first)).2.2
    have is := (still.found (show Pool.Answers (table.find sought) pool (.ok new) after from second)).2.2
    rw [was old rfl, is new rfl, listing_eq agrees, listing_eq agrees]
  · intro more later rest other valid content answer last next
    obtain ⟨list, living, keeps⟩ := rest.alive still
    obtain ⟨ends, keeps_last, _⟩ := living.inserted next
    have small := still.stores.route_lt (table.hash other)
    have root := (keeps.trans keeps_last).root small valid
    refine ⟨root, fun yes => ?_⟩
    rw [if_pos yes] at ends
    rw [← root]
    exact (ends.stores.lies (List.mem_append_right _ List.mem_cons_self)).2

/-- An insertion is refused after it has split a bucket once more, and one finds no frame for the split when a client
has one of three. Both leave two entries as they were. -/
theorem insert_atomic_split : ∃ (table : Table UInt32 UInt32) (session crowded : Session RamStore)
    (refused failed : Pool RamStore),
    table.insert 0 12 session.pool = .ok false refused ∧ (table.shape session.pages 0).globalDepth = 1 ∧
      2 ≤ (table.shape refused.pages 0).globalDepth ∧ (∃ after, table.find 0 refused = .ok [10] after) ∧
      (∃ after, table.find 1 refused = .ok [11] after) ∧
      table.insert 0 12 crowded.pool = .error (.error .noFreeFrames) failed ∧
      Stores table crowded.pages [(0, 10), (1, 11)] ∧ ∃ entries,
        Stores table crowded.pages entries ∧ Stores table (Session.pages { crowded with pool := failed }) entries := by
  obtain ⟨table, start, session, created, life, paired⟩ := exists_split_life
  have alive := paired.alive
  have agrees := paired.agrees
  obtain ⟨_, crowded, state, step, stranded⟩ := paired.strands
  obtain ⟨refused, no, living, -, eased, -⟩ := alive.insert_single paired.single paired.eased paired.room 0 12
    (show (_ != _) = false by rw [paired.hashes]; rfl)
  obtain ⟨failed, fails, -⟩ := stranded.insert
  have reached : Reached table session := .lived (.created created) life
  have reached_crowded : Reached table crowded := .lived reached (Life.begun.outside step trivial)
  obtain ⟨-, looks, -⟩ := reached.insert_atomic agrees no nofun
  have answers : Pool.Answers (table.insert 0 12) crowded.pool (.error .noFreeFrames) failed := fails
  obtain ⟨stays, -⟩ := reached_crowded.insert_atomic agrees answers nofun
  -- What is found afterwards is what was found before.
  have finds : ∀ key, ∃ after, table.find key refused =
      .ok (under table.compare key [((0 : UInt32), (10 : UInt32)), (1, 11)]) after := fun key => by
    obtain ⟨_, before, -, -⟩ := alive.find_answered paired.eased agrees key
    obtain ⟨values, after, found, -⟩ := living.find_total eased key
    rw [← looks key _ values _ after before found]
    exact ⟨after, found⟩
  obtain ⟨first, second⟩ : _ ∧ _ := ⟨finds 0, finds 1⟩
  rw [paired.compares] at first second
  have grows : Grows table.hash 1 (table.hash 0) [((0 : UInt32), (10 : UInt32)), (1, 11)]
      (table.shape session.pages 0) false (table.shape refused.pages 0) :=
    paired.single.grows alive.stores (alive.grown no)
  obtain ⟨-, -, -, deep, -⟩ := paired.halves
  have further := grows.refused_late (by rw [paired.reach.1, deep]; decide)
  rw [paired.reach.1] at further
  exact ⟨table, session, crowded, refused, failed, no, paired.deep, further, first, second, fails,
    stranded.alive.stores, stays⟩

/-- A removal that fails has removed all entries under its key, or none. -/
theorem Reached.removal_failed [Reopening σ] (reached : Reached table session)
    (agrees : Agrees table.compare table.hash) {error : Error} {pool : Pool σ}
    (done : table.remove key session.pool = .error (.error error) pool) :
    ∃ entries, Stores table session.pages entries ∧
      (Stores table (Session.pages { session with pool }) entries ∨
        Stores table (Session.pages { session with pool }) (without table.compare key entries)) := by
  obtain ⟨entries, alive⟩ := reached.alive
  have answers : Pool.Answers (table.remove key) session.pool (.error error) pool := done
  obtain ⟨list, still, _, rid | ⟨_, rfl⟩, _⟩ := alive.removed answers
  · rw [rid agrees] at still
    exact ⟨entries, alive.stores, .inr still.stores⟩
  · exact ⟨list, alive.stores, .inl still.stores⟩

/-- A client has one of three frames, and a removal finds none for the buddy of the bucket that it has emptied. -/
theorem removal_failed_emptied : ∃ (table : Table UInt32 UInt32) (session : Session RamStore) (pool : Pool RamStore),
    table.remove 0 session.pool = .error (.error .noFreeFrames) pool ∧
      Stores table session.pages [(0, 10), (1, 11)] ∧ Stores table (Session.pages { session with pool }) [(1, 11)] ∧
      ∃ entries, Stores table session.pages entries ∧
        (Stores table (Session.pages { session with pool }) entries ∨
          Stores table (Session.pages { session with pool }) (without table.compare 0 entries)) := by
  obtain ⟨table, start, session, created, life, paired⟩ := exists_split_life
  obtain ⟨_, crowded, state, step, stranded⟩ := paired.strands
  obtain ⟨pool, fails, still⟩ := stranded.remove paired.agrees
  have reached : Reached table crowded := .lived (.lived (.created created) life) (Life.begun.outside step trivial)
  exact ⟨table, crowded, pool, fails, stranded.alive.stores, still.stores, reached.removal_failed paired.agrees fails⟩

end PagedIndex.Table
