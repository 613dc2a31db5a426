import Mathlib
import PagedIndex.Proofs.Format.DirectoryCheck
import PagedIndex.Proofs.Table.WellFormed
import PagedIndex.Table.Verify

/-!
# Checking tables

A table that can be read passes its check just if each directory does and each bucket goes with the first slot that
names it. That is so whenever the table stores a list. Checking a table changes nothing.
-/

namespace PagedIndex.Table

open DirectoryState
open Pool (Runs holding view)

variable {K V σ : Type} [FixedWidth K] [FixedWidth V] [BackingStore σ] [PageKeeper σ]
  {leases : List Lease} {terms : Pool.Terms} {table : Table K V} {memory : Memory} {pages : Pages}
  {entries list : List (K × V)} {headerSlot slot limit localSize : Nat} {header bytes : Page} {state : DirectoryState}

/-- The entries of the bucket in a slot go with the slot, as far as its depth tells. -/
def Suits (table : Table K V) (pages : Pages) (headerSlot : Nat) (state : DirectoryState) (slot : Nat) : Prop :=
  ∀ limit, ∀ list : List (K × V), Bucket.Holds (pages.content (state.bucket slot)) limit list → ∀ entry ∈ list,
    table.route pages (table.hash entry.1) = headerSlot ∧
      (table.hash entry.1).toNat % 2 ^ state.depth slot = slot % 2 ^ state.depth slot

/-- A directory is in order as far as it is checked: each bucket is looked at from one of its slots only. -/
structure InOrder (table : Table K V) (pages : Pages) (headerSlot : Nat) (state : DirectoryState) : Prop where
  counted : state.Counted
  suits : ∀ slot < state.size, state.Leads slot → table.Suits pages headerSlot state slot

def Vetted (table : Table K V) (pages : Pages) : Prop :=
  ∀ slot < table.breadth pages, (table.branch pages slot).isValid = true →
    table.InOrder pages slot (Directory.stateOf (pages.content (table.branch pages slot)))

omit [BackingStore σ] [PageKeeper σ] in
theorem verifyEntries_settles (routes : Header.Routes header) (holds : Bucket.Holds bytes limit list)
    (headerSlot slot localSize : Nat) (directory bucket : PageId) :
    let right := ∀ entry ∈ list, Header.slotOf (Header.depthOf header) (table.hash entry.1) = headerSlot ∧
      (table.hash entry.1).toNat % localSize = slot % localSize
    Settles (fun _ => ¬ right) (fun _ => right)
      (table.verifyEntries ⟨header⟩ headerSlot directory slot localSize bucket ⟨bytes⟩) := by
  intro right
  rw [verifyEntries, bind_of_ok _ holds.size]
  -- The loop keeps that all entries before the next one are right.
  let checked (count : Nat) (_ : Unit) : Prop := ∀ entry ∈ list.take count,
    Header.slotOf (Header.depthOf header) (table.hash entry.1) = headerSlot ∧
      (table.hash entry.1).toNat % localSize = slot % localSize
  refine (Settles.foldUp checked (by simp [checked]) fun index _ _ small before => ?_).mono (fun _ => id)
    fun _ all => ?_
  · rw [Nat.zero_add] at small
    rw [bind_of_ok _ (holds.key small), bind_of_ok _ (routes.slotFor _)]
    split
    · rename_i astray
      refine .error fun right => ?_
      obtain ⟨route, low⟩ := right _ (List.getElem_mem small)
      exact astray.elim (· route) (· low)
    · rename_i here
      rw [not_or, not_not, not_not] at here
      refine .ok fun entry member => ?_
      rw [List.take_succ_eq_append_getElem small] at member
      rcases List.mem_append.mp member with old | new
      · exact before entry old
      · rw [List.mem_singleton.mp new]
        exact here
  · intro entry member
    refine all entry ?_
    rwa [Nat.zero_add, List.take_length]

/-- The buckets seen before a slot are those in the slots before it, and each went with the first of its slots. -/
structure Seen (table : Table K V) (pages : Pages) (headerSlot : Nat) (state : DirectoryState) (slots : Nat)
    (seen : List PageId) : Prop where
  mem_iff : ∀ bucket, bucket ∈ seen ↔ bucket.isValid = true ∧ ∃ slot < slots, state.bucket slot = bucket
  suits : ∀ slot < slots, state.Leads slot → table.Suits pages headerSlot state slot

section Seen

variable {seen : List PageId}

omit [BackingStore σ] [PageKeeper σ]

theorem Seen.start (table : Table K V) (pages : Pages) (headerSlot : Nat) (state : DirectoryState) :
    Seen table pages headerSlot state 0 [] :=
  ⟨fun _ => ⟨nofun, fun ⟨_, _, less, _⟩ => absurd less (Nat.not_lt_zero _)⟩,
    fun _ less => absurd less (Nat.not_lt_zero _)⟩

theorem Seen.leads_iff (before : Seen table pages headerSlot state slot seen) :
    state.Leads slot ↔ (state.bucket slot).isValid = true ∧ state.bucket slot ∉ seen := by
  refine and_congr_right fun valid => ?_
  rw [before.mem_iff, not_and, not_exists]
  exact ⟨fun all _ other both => all other both.1 both.2, fun none other less same => none valid other ⟨less, same⟩⟩

theorem Seen.next (before : Seen table pages headerSlot state slot seen) {later : List PageId}
    (mem : ∀ bucket, bucket ∈ later ↔ bucket ∈ seen ∨ bucket.isValid = true ∧ state.bucket slot = bucket)
    (suits : state.Leads slot → table.Suits pages headerSlot state slot) :
    Seen table pages headerSlot state (slot + 1) later where
  mem_iff bucket := by
    rw [mem, before.mem_iff, ← and_or_left]
    simp only [Nat.lt_succ_iff_lt_or_eq, or_and_right, exists_or, exists_eq_left]
  suits other small leads := by
    rcases Nat.lt_succ_iff_lt_or_eq.mp small with less | rfl
    · exact before.suits other less leads
    · exact suits leads

theorem Seen.skipped (before : Seen table pages headerSlot state slot seen) (follows : ¬ state.Leads slot) :
    Seen table pages headerSlot state (slot + 1) seen := by
  refine before.next (fun bucket => ⟨.inl, ?_⟩) fun leads => absurd leads follows
  rintro (old | ⟨valid, rfl⟩)
  · exact old
  · by_contra fresh
    exact follows (before.leads_iff.mpr ⟨valid, fresh⟩)

theorem Seen.added (before : Seen table pages headerSlot state slot seen) (leads : state.Leads slot)
    (suits : table.Suits pages headerSlot state slot) :
    Seen table pages headerSlot state (slot + 1) (state.bucket slot :: seen) := by
  refine before.next (fun bucket => ?_) fun _ => suits
  rw [List.mem_cons, or_comm]
  refine or_congr_right ⟨fun same => ?_, fun both => both.2.symm⟩
  rw [same]
  exact ⟨leads.1, rfl⟩

end Seen

theorem verifyBucket_runs (legible : Legible table memory.toPages) {directory : PageId}
    (readable : Readable K V memory.toPages directory) (pins : memory.pins = {directory, table.header})
    (mentioned : (Directory.stateOf (memory.content directory)).Mentions (state.bucket slot))
    (apart : state.bucket slot ≠ table.header) (headerSlot : Nat)
    (sure : terms.ease → table.Suits memory.toPages headerSlot state slot) :
    Runs leases terms (holding (state.bucket slot) (view (state.bucket slot) fun bytes => do
        table.verifyEntries ⟨memory.content table.header⟩ headerSlot directory slot (2 ^ state.depth slot)
          (state.bucket slot) (← Bucket.ofBytes bytes)) : Pool.Action σ Unit) memory
      (fun _ later => table.Suits memory.toPages headerSlot state slot ∧ later = memory)
      (fun later => later = memory) := by
  obtain ⟨limit, list, holds⟩ := readable.holds _ mentioned
  -- The list of a bucket is what its bytes say, so that its entries suit the slot if these do.
  have suits_iff : table.Suits memory.toPages headerSlot state slot ↔ ∀ entry ∈ list,
      table.route memory.toPages (table.hash entry.1) = headerSlot ∧
        (table.hash entry.1).toNat % 2 ^ state.depth slot = slot % 2 ^ state.depth slot := by
    refine ⟨fun suits => suits limit list holds, fun right _ other there => ?_⟩
    rwa [← Except.ok.inj (holds.entries_ok.symm.trans there.entries_ok)]
  refine Runs.looking (readable.issued _ (.inr mentioned)) (by simp [pins]) ?_ holds.written ?_
  · simp [pins, readable.apart mentioned, apart]
  · refine Runs.survey (Multiset.mem_cons_self _ _) ?_ rfl
      fun _ (wrong : ¬ table.Suits memory.toPages headerSlot state slot) ease => wrong (sure ease)
    rw [Memory.content_pin, bind_of_ok _ holds.ofBytes, suits_iff]
    exact verifyEntries_settles legible.routes holds headerSlot slot _ directory _

theorem verifyDirectory_runs (legible : Legible table memory.toPages) (pins : memory.pins = {table.header})
    (small : headerSlot < table.breadth memory.toPages) :
    let directory := table.branch memory.toPages headerSlot
    let right := directory.isValid = true →
      table.InOrder memory.toPages headerSlot (Directory.stateOf (memory.content directory))
    (terms.ease → right) →
      Runs leases terms (table.verifyDirectory ⟨memory.content table.header⟩ headerSlot : Pool.Action σ Unit) memory
        (fun _ later => right ∧ later = memory) (fun later => later = memory) := by
  intro directory right sure
  have listed : Header.directory ⟨memory.content table.header⟩ headerSlot = .ok directory :=
    legible.routes.directory small
  refine Runs.step (Runs.lift listed) ?_
  by_cases valid : directory.isValid = true
  · have readable := legible.readable headerSlot small valid
    let state := Directory.stateOf (memory.content directory)
    have denotes : Directory.Denotes (memory.content directory) state := readable.denotes
    have shallow : state.globalDepth ≤ maxDirectoryDepth := readable.shallow
    have easy : terms.ease → table.InOrder memory.toPages headerSlot state := fun ease => sure ease valid
    have header_apart := legible.header_apart small valid
    have unpinned : directory ∉ memory.pins := by
      rw [pins, Multiset.mem_singleton]
      exact fun same => header_apart (.inl same.symm)
    have legible_pin : Legible table (memory.pin directory).toPages := legible
    have readable_pin : Readable K V (memory.pin directory).toPages directory := readable
    have pins_pin : (memory.pin directory).pins = {directory, table.header} := by
      rw [Memory.pins_pin, pins]
      rfl
    rw [if_neg (by simp [valid])]
    refine (Runs.looking (readable.issued _ (.inl rfl)) (by simp [pins]) unpinned denotes.written ?_).mono
      (fun _ later (both : table.InOrder memory.toPages headerSlot state ∧ later = memory) =>
        ⟨fun _ => both.1, both.2⟩) fun _ => id
    refine Runs.step (Runs.view _ (Multiset.mem_cons_self _ _) denotes.ofBytes) ?_
    refine Runs.bind (Runs.settle (denotes.verify_settles shallow) rfl fun _ wrong ease => wrong.1 (easy ease).counted)
      fun _ later counted => ?_
    obtain ⟨counted, rfl⟩ := counted
    refine Runs.step (Runs.lift (denotes.size shallow)) ?_
    refine Runs.bind (Runs.foldUp (Seen table memory.toPages headerSlot state) (.start ..)
      fun slot seen _ little before => ?_) fun seen later known => Runs.pure ?_
    -- A bucket is checked in the first slot that names it.
    · rw [Nat.zero_add] at little
      refine Runs.step (Runs.lift (denotes.bucket_ok shallow little)) ?_
      split
      · rename_i passed
        refine Runs.pure ⟨before.skipped fun leads => ?_, rfl⟩
        rw [before.leads_iff] at leads
        simp [leads.1, leads.2] at passed
      · rename_i fresh
        have leads : state.Leads slot := before.leads_iff.mpr (by simpa using fresh)
        have deep := counted.depth_le slot little leads.1
        refine Runs.step (Runs.lift (denotes.localSize shallow little deep)) ?_
        have mentioned : state.Mentions (state.bucket slot) := ⟨leads.1, slot, little, rfl⟩
        have apart : state.bucket slot ≠ table.header := fun same => header_apart (.inr (same ▸ mentioned))
        refine Runs.bind (verifyBucket_runs legible_pin readable_pin pins_pin mentioned apart headerSlot fun ease =>
          (easy ease).suits slot little leads) fun _ later known => ?_
        obtain ⟨suits, rfl⟩ := known
        exact Runs.pure ⟨before.added leads suits, rfl⟩
    · obtain ⟨seen, rfl⟩ := known
      rw [Nat.zero_add] at seen
      exact ⟨⟨counted, seen.suits⟩, rfl⟩
  · have nowhere : directory.isValid = false := by simpa using valid
    rw [if_pos (by simp [nowhere])]
    exact Runs.pure ⟨fun there => absurd there valid, rfl⟩

theorem Legible.verify_runs (legible : Legible table memory.toPages) (free : memory.pins = 0)
    (sure : terms.ease → table.Vetted memory.toPages) :
    Runs leases terms (table.verify : Pool.Action σ Unit) memory
      (fun _ later => table.Vetted memory.toPages ∧ later = memory) (fun later => later = memory) := by
  have legible_pin : Legible table (memory.pin table.header).toPages := legible
  have pins : (memory.pin table.header).pins = {table.header} := by
    rw [Memory.pins_pin, free]
    rfl
  refine Runs.looking legible.issued (by simp [free]) (by simp [free]) legible.routes.written ?_
  refine Runs.step (Runs.view _ (Multiset.mem_cons_self _ _) legible.routes.ofBytes) ?_
  refine Runs.step (Runs.lift legible.routes.size) ?_
  -- One directory after the other is found in order.
  refine (Runs.foldUp (fun slots _ => ∀ slot < slots, (table.branch memory.toPages slot).isValid = true →
      table.InOrder memory.toPages slot (Directory.stateOf (memory.content (table.branch memory.toPages slot))))
    (fun _ less => absurd less (Nat.not_lt_zero _)) fun slot _ _ small before => ?_).mono (fun _ later known => ?_)
    fun _ => id
  · rw [Nat.zero_add] at small
    refine (verifyDirectory_runs legible_pin pins small fun ease => sure ease slot small).mono
      (fun _ later known => ⟨fun other less => ?_, known.2⟩) fun _ => id
    rcases Nat.lt_succ_iff_lt_or_eq.mp less with less | rfl
    · exact before other less
    · exact known.1
  · rw [Nat.zero_add] at known
    exact known

/-! ### Tables that store lists -/

theorem Houses.inOrder {table : Table K V} {directory : PageId} (houses : Houses table.hash pages directory state limit
      (routed table.hash (table.route pages) headerSlot entries)) :
    table.InOrder pages headerSlot state where
  counted := houses.shelves.formed.counted
  suits slot small leads most list holds entry member := by
    have lists := holds.entries_ok.symm.trans
      (houses.shelves.holds _ ⟨leads.1, slot, small, rfl⟩).entries_ok
    rw [Except.ok.inj lists] at member
    exact houses.belongs small member

theorem Stores.vetted (stores : Stores table pages entries) : table.Vetted pages := by
  intro slot small valid
  obtain ⟨state, limit, houses⟩ := stores.houses slot small valid
  rw [houses.denotes.state_eq]
  exact houses.inOrder

theorem verify_runs (stores : Stores table memory.toPages entries) (free : memory.pins = 0) :
    Runs leases terms (table.verify : Pool.Action σ Unit) memory (fun _ later => later = memory)
      (fun later => later = memory) :=
  (stores.legible.verify_runs free fun _ => stores.vetted).mono (fun _ _ => And.right) fun _ => id

end PagedIndex.Table
