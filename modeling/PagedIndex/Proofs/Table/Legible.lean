import Mathlib
import PagedIndex.Proofs.Format.HeaderSlots
import PagedIndex.Proofs.Table.Houses

/-!
# Tables that can be read

A table can be read if its header, the directories in it and the buckets in these are pages of their kind, within the
limits of the format. Then a lookup finds what is in the bucket that the header and a directory lead to, wherever the
entries should be.
-/

namespace PagedIndex.Table

open DirectoryState
open Pool (Runs keeping holding view)

section Outline

variable {K V : Type} (table : Table K V) (pages : Pages)

def branch (slot : Nat) : PageId := Header.directoryAt (pages.content table.header) slot

def breadth : Nat := 2 ^ Header.depthOf (pages.content table.header)

def route : UInt32 → Nat := Header.slotOf (Header.depthOf (pages.content table.header))

/-- The directory of a hash, if there is one. -/
def root (hash : UInt32) : PageId := table.branch pages (table.route pages hash)

/-- The bucket of a hash, if there is one. -/
def leaf (hash : UInt32) : PageId := (Directory.stateOf (pages.content (table.root pages hash))).home hash

end Outline

variable {K V σ : Type} [FixedWidth K] [FixedWidth V] [BackingStore σ] [PageKeeper σ]
  {leases : List Lease} {terms : Pool.Terms} {table : Table K V} {pages : Pages} {memory : Memory}
  {directory page : PageId} {slot : Nat} {hash : UInt32} {key : K} {failed : Memory → Prop}

/-- A directory and its buckets are pages of their kind. -/
structure Readable (K V : Type) [FixedWidth K] [FixedWidth V] (pages : Pages) (directory : PageId) : Prop where
  tagged : PageKind.directory.Tags (pages.content directory)
  shallow : (Directory.stateOf (pages.content directory)).globalDepth ≤ maxDirectoryDepth
  issued : ∀ page, Reaches pages directory page → page.number < pages.next
  holds : ∀ bucket, (Directory.stateOf (pages.content directory)).Mentions bucket →
    ∃ limit, ∃ list : List (K × V), Bucket.Holds (pages.content bucket) limit list

structure Legible (table : Table K V) (pages : Pages) : Prop where
  routes : Header.Routes (pages.content table.header)
  issued : table.header.number < pages.next
  readable : ∀ slot < table.breadth pages, (table.branch pages slot).isValid = true →
    Readable K V pages (table.branch pages slot)

theorem Houses.readable {hashes : K → UInt32} {state : DirectoryState} {limit : Nat} {entries : List (K × V)}
    (houses : Houses hashes pages directory state limit entries) : Readable K V pages directory where
  tagged := houses.denotes.tagged
  shallow := by
    rw [houses.denotes.state_eq]
    exact houses.shallow
  issued page reached := houses.reached_issued reached
  holds bucket mentioned := by
    rw [houses.denotes.state_eq] at mentioned
    exact ⟨limit, _, houses.shelves.holds bucket mentioned⟩

section Readable

variable (readable : Readable K V pages directory)

include readable

theorem Readable.denotes :
    Directory.Denotes (pages.content directory) (Directory.stateOf (pages.content directory)) :=
  ⟨readable.tagged, rfl⟩

theorem Readable.apart (mentioned : (Directory.stateOf (pages.content directory)).Mentions page) :
    page ≠ directory := by
  rintro rfl
  obtain ⟨_, _, holds⟩ := readable.holds page mentioned
  cases holds.tagged.unique readable.tagged

theorem Readable.shown {seen : Pages} (shown : pages.Shown seen) : Readable K V seen directory := by
  have same := shown.content directory readable.denotes.written
  refine ⟨by rw [same]; exact readable.tagged, by rw [same]; exact readable.shallow, fun page reached => ?_,
    fun bucket mentioned => ?_⟩
  · rw [shown.next]
    exact readable.issued page ((reaches_congr same).mp reached)
  · rw [same] at mentioned
    obtain ⟨limit, list, holds⟩ := readable.holds bucket mentioned
    rw [shown.content bucket holds.written]
    exact ⟨limit, list, holds⟩

end Readable

section Legible

variable (legible : Legible table pages)

include legible

theorem Legible.route_lt (hash : UInt32) : table.route pages hash < table.breadth pages :=
  Header.slotOf_lt legible.routes.depth_le hash

theorem Legible.header_apart (small : slot < table.breadth pages)
    (valid : (table.branch pages slot).isValid = true) :
    ¬ Reaches pages (table.branch pages slot) table.header := by
  have readable := legible.readable slot small valid
  rintro (same | mentioned)
  · have tagged := readable.tagged
    rw [← same] at tagged
    cases tagged.unique legible.routes.tagged
  · obtain ⟨_, _, holds⟩ := readable.holds _ mentioned
    cases holds.tagged.unique legible.routes.tagged

theorem Legible.directoryIn (hash : UInt32) :
    directoryIn hash (pages.content table.header) = .ok (table.root pages hash) := by
  rw [Table.directoryIn, bind_of_ok _ legible.routes.ofBytes, bind_of_ok _ (legible.routes.slotFor hash)]
  exact legible.routes.directory (legible.route_lt hash)

theorem Legible.rooted (valid : (table.root pages hash).isValid = true) :
    Readable K V pages (table.root pages hash) :=
  legible.readable _ (legible.route_lt hash) valid

/-- A table is read as before where its pages are seen as before, since none of them is all zeros. -/
theorem Legible.shown {seen : Pages} (shown : pages.Shown seen) : Legible table seen ∧
    (∀ hash, table.root seen hash = table.root pages hash) ∧
      ∀ hash, (table.root pages hash).isValid = true → table.leaf seen hash = table.leaf pages hash := by
  have header := shown.content table.header legible.routes.written
  have roots : ∀ hash, table.root seen hash = table.root pages hash := fun hash => by
    simp only [root, branch, route, header]
  refine ⟨⟨by rw [header]; exact legible.routes, by rw [shown.next]; exact legible.issued, fun slot small valid => ?_⟩,
    roots, fun hash valid => ?_⟩
  · simp only [breadth, branch, header] at small valid ⊢
    exact (legible.readable slot small valid).shown shown
  · rw [leaf, roots, shown.content _ (legible.rooted valid).denotes.written, leaf]

end Legible

/-! ### Looking up -/

theorem Legible.pinDirectory_runs (legible : Legible table memory.toPages) (free : memory.pins = 0) (hash : UInt32)
    (refused : failed memory) :
    Runs leases terms (table.pinDirectory hash : Pool.Action σ PageId) memory
      (fun found later => found = table.root memory.toPages hash ∧
        later = if (table.root memory.toPages hash).isValid then memory.pin (table.root memory.toPages hash)
          else memory) failed := by
  by_cases valid : (table.root memory.toPages hash).isValid = true
  · have readable := legible.rooted valid
    refine Runs.holding (table.root memory.toPages hash ::ₘ memory.pins) memory.pins refused legible.issued
      (by simp [free]) (by simp [free]) legible.routes.written ?_
    refine Runs.step (Runs.view _ (Multiset.mem_cons_self _ _) (legible.directoryIn hash)) ?_
    rw [if_pos valid]
    have apart : table.root memory.toPages hash ≠ table.header := fun same =>
      legible.header_apart (legible.route_lt hash) valid (.inl same.symm)
    refine Runs.bind (Runs.fetch ⟨rfl, refused⟩ (readable.issued _ (.inl rfl)) (by simp [free])
      (by simpa [free] using apart) readable.denotes.written) fun id later known => Runs.pure ?_
    subst known
    refine ⟨Multiset.cons_swap _ _ _, rfl, ?_⟩
    rw [if_pos valid]
    exact memory.pin_pin _ _
  · refine Runs.holding memory.pins memory.pins refused legible.issued (by simp [free]) (by simp [free])
      legible.routes.written ?_
    refine Runs.step (Runs.view _ (Multiset.mem_cons_self _ _) (legible.directoryIn hash)) ?_
    rw [if_neg valid]
    exact Runs.pure ⟨rfl, rfl, (if_neg valid).symm⟩

theorem Readable.pinBucket_runs (readable : Readable K V memory.toPages directory) (free : memory.pins = 0)
    (hash : UInt32) (refused : failed memory) :
    let home := (Directory.stateOf (memory.content directory)).home hash
    Runs leases terms (pinBucket directory hash : Pool.Action σ PageId) (memory.pin directory)
      (fun found later => found = home ∧ later = if home.isValid then memory.pin home else memory) failed := by
  intro home
  have leads := bucketIn_ok readable.denotes readable.shallow hash
  by_cases valid : home.isValid = true
  · have mentioned := mentions_home valid
    obtain ⟨_, _, holds⟩ := readable.holds home mentioned
    refine Runs.keeping (home ::ₘ memory.pins) memory.pins ?_
    refine Runs.step (Runs.view _ (Multiset.mem_cons_self _ _) leads) ?_
    dsimp only
    rw [if_pos valid]
    refine Runs.bind (Runs.fetch ⟨rfl, refused⟩ (readable.issued home (.inr mentioned)) (by simp [free])
      (by simpa [free] using readable.apart mentioned) holds.written) fun id later known => Runs.pure ?_
    subst known
    refine ⟨Multiset.cons_swap _ _ _, rfl, ?_⟩
    rw [if_pos valid]
    exact memory.pin_pin _ _
  · refine Runs.keeping memory.pins memory.pins ?_
    refine Runs.step (Runs.view _ (Multiset.mem_cons_self _ _) leads) ?_
    dsimp only
    rw [if_neg valid]
    exact Runs.pure ⟨rfl, rfl, (if_neg valid).symm⟩

/-- The values that are found under a key: those in the bucket of its hash, if there is one. -/
inductive Finds (table : Table K V) (pages : Pages) (key : K) : List V → Prop where
  | unlisted (nowhere : (table.root pages (table.hash key)).isValid = false) : Finds table pages key []
  | vacant (listed : (table.root pages (table.hash key)).isValid = true)
      (nowhere : (table.leaf pages (table.hash key)).isValid = false) : Finds table pages key []
  | found {limit : Nat} {list : List (K × V)} (listed : (table.root pages (table.hash key)).isValid = true)
      (full : (table.leaf pages (table.hash key)).isValid = true)
      (holds : Bucket.Holds (pages.content (table.leaf pages (table.hash key))) limit list) :
      Finds table pages key (under table.compare key list)

theorem Legible.find_runs (legible : Legible table memory.toPages) (free : memory.pins = 0) (key : K) :
    Runs leases terms (table.find key : Pool.Action σ (List V)) memory
      (fun values later => Finds table memory.toPages key values ∧ later = memory) (fun later => later = memory) := by
  refine Runs.step (legible.pinDirectory_runs free (table.hash key) rfl) ?_
  by_cases valid : (table.root memory.toPages (table.hash key)).isValid = true
  · have readable := legible.rooted valid
    rw [if_pos valid, valid]
    refine Runs.step (readable.pinBucket_runs free (table.hash key) rfl) ?_
    by_cases full : (table.leaf memory.toPages (table.hash key)).isValid = true
    · obtain ⟨limit, list, holds⟩ := readable.holds _ (mentions_home full)
      rw [leaf] at full
      rw [if_pos full, full]
      refine Runs.keeping memory.pins memory.pins
        (Runs.finish (Runs.view (under table.compare key list) (Multiset.mem_cons_self _ _) ?_)
          ⟨rfl, .found valid full holds, rfl⟩)
      rw [Memory.content_pin, bind_of_ok _ holds.ofBytes, holds.lookup]
      rfl
    · have nowhere : (table.leaf memory.toPages (table.hash key)).isValid = false := by simpa using full
      rw [leaf] at full nowhere
      rw [if_neg full, nowhere]
      exact Runs.pure ⟨.vacant valid nowhere, rfl⟩
  · have nowhere : (table.root memory.toPages (table.hash key)).isValid = false := by simpa using valid
    rw [if_neg valid, nowhere]
    exact Runs.pure ⟨.unlisted nowhere, rfl⟩

end PagedIndex.Table
