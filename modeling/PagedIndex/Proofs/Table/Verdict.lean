import Mathlib
import PagedIndex.Proofs.Table.Progress
import PagedIndex.Proofs.Table.Refusals

/-!
# What a check is worth

A check that passes makes sure of the header slot of every entry and of the number of slots of every bucket. An entry
is where its hash leads, and is found there, if the slots of its bucket agree in their low bits; but that they do is
not checked.
-/

namespace PagedIndex

namespace DirectoryState

variable {state : DirectoryState} {slot : Nat}

/-- All hashes that a slot stands for lead to its bucket, just if the slots of the bucket agree in their low bits. -/
theorem Counted.home_iff (counted : state.Counted) (small : slot < state.size)
    (valid : (state.bucket slot).isValid = true) (shallow : state.globalDepth ≤ maxDirectoryDepth) :
    state.Aligned (state.bucket slot) ↔ ∀ hash : UInt32,
      hash.toNat % 2 ^ state.depth slot = slot % 2 ^ state.depth slot → state.home hash = state.bucket slot := by
  rw [counted.aligned_iff small valid]
  have deep := counted.depth_le slot small valid
  refine ⟨fun all hash low => all _ (state.slot_lt hash) ?_, fun all other little same => ?_⟩
  · rwa [mod_size_mod deep]
  · have bound : state.size ≤ 2 ^ maxDirectoryDepth := Nat.pow_le_pow_right (by decide) shallow
    have number : (UInt32.ofNat other).toNat = other := by
      rw [UInt32.toNat_ofNat', Nat.mod_eq_of_lt]
      simp only [maxDirectoryDepth] at bound
      omega
    have leads := all (UInt32.ofNat other) (by rwa [number])
    rwa [home, number, Nat.mod_eq_of_lt little] at leads

end DirectoryState

namespace Table

open DirectoryState
open Pool (Eased)

variable {K V σ : Type} [FixedWidth K] [FixedWidth V] {table : Table K V} {pages : Pages} {headerSlot slot limit : Nat}
  {state : DirectoryState} {list : List (K × V)} {entry : K × V}

/-- What a check that passes says of an entry in the bucket of a slot. -/
structure Placed (table : Table K V) (pages : Pages) (headerSlot : Nat) (state : DirectoryState) (slot : Nat)
    (hash : UInt32) : Prop where
  route : table.route pages hash = headerSlot
  /-- The hash goes with one of the slots of the bucket, which may be another one than it leads to. -/
  low : ∃ first ≤ slot, state.bucket first = state.bucket slot ∧
    hash.toNat % 2 ^ state.depth slot = first % 2 ^ state.depth slot
  home : state.Aligned (state.bucket slot) → state.home hash = state.bucket slot

theorem InOrder.placed (inOrder : table.InOrder pages headerSlot state)
    (shallow : state.globalDepth ≤ maxDirectoryDepth) (small : slot < state.size)
    (valid : (state.bucket slot).isValid = true) (holds : Bucket.Holds (pages.content (state.bucket slot)) limit list)
    (member : entry ∈ list) : Placed table pages headerSlot state slot (table.hash entry.1) := by
  obtain ⟨first, before, same, leads⟩ := exists_leads valid
  have less := Nat.lt_of_le_of_lt before small
  have depth := inOrder.counted.depth_eq first less slot small leads.1 same
  rw [← same] at holds
  obtain ⟨route, low⟩ := inOrder.suits first less leads limit list holds entry member
  refine ⟨route, ⟨first, before, same, by rwa [← depth]⟩, fun aligned => ?_⟩
  rw [← same] at aligned ⊢
  exact (inOrder.counted.home_iff less leads.1 shallow).mp aligned _ low

theorem Finds.mem {key : K} {value : V} {values : List V} (finds : Finds table pages key values)
    (listed : (table.root pages (table.hash key)).isValid = true)
    (full : (table.leaf pages (table.hash key)).isValid = true)
    (holds : Bucket.Holds (pages.content (table.leaf pages (table.hash key))) limit list)
    (member : (key, value) ∈ list) (equal : table.compare key key = .eq) : value ∈ values := by
  cases finds with
  | unlisted nowhere =>
    rw [listed] at nowhere
    cases nowhere
  | vacant _ nowhere =>
    rw [full] at nowhere
    cases nowhere
  | found _ _ other =>
    rw [← Except.ok.inj (holds.entries_ok.symm.trans other.entries_ok)]
    have kept : (key, value) ∈ list.filter fun entry => table.compare entry.1 key = .eq :=
      List.mem_filter.mpr ⟨member, decide_eq_true equal⟩
    exact List.mem_map_of_mem kept

variable [BackingStore σ] [PageKeeper σ] {session : Session σ} {pool : Pool σ}

theorem Legible.seen (legible : Legible table session.pages) : Legible table session.memory.toPages := legible

theorem Legible.passed (legible : Legible table session.pages) (kept : session.Kept)
    (done : table.verify session.pool = .ok () pool) :
    table.Vetted session.pages ∧ Session.Kept { session with pool } ∧
      session.pages.Shown (Session.pages { session with pool }) ∧ session.Lasts { session with pool } := by
  have answers : Pool.Answers table.verify session.pool (.ok ()) pool := done
  obtain ⟨marks, memory, -, -, models, follows, vetted, rfl⟩ :=
    (legible.seen.verify_runs rfl False.elim).recorded (kept.models False.elim) answers
  obtain ⟨still, shown⟩ := kept.called models rfl (UInt32.le_refl _)
  exact ⟨vetted, still, shown, (Session.lasts_still models follows).1⟩

theorem Legible.found {key : K} {values : List V} (legible : Legible table session.pages) (kept : session.Kept)
    (done : table.find key session.pool = .ok values pool) : Finds table session.pages key values := by
  have answers : Pool.Answers (table.find key) session.pool (.ok values) pool := done
  obtain ⟨_, _, finds, _⟩ := (legible.seen.find_runs rfl key).answers (kept.models False.elim) answers
  exact finds

theorem Legible.find_total (legible : Legible table session.pages) (kept : session.Kept)
    (eased : Eased session.leases session.pool) (key : K) :
    ∃ values pool, table.find key session.pool = .ok values pool := by
  obtain ⟨values, pool, _, done, -⟩ :=
    (legible.seen.find_runs rfl key).total (kept.models fun _ => eased) False.elim
  exact ⟨values, pool, done⟩

/-- Whatever the pages of a table hold, if they can be read and the table passes its check, all entries are under the
header slot that their hashes choose, and each bucket is in as many slots as its depth asks for. If the slots of a
bucket agree in their low bits, its entries are where their hashes lead; what is where its hash leads is found. -/
theorem Legible.verify_sound (legible : Legible table session.pages) (kept : session.Kept)
    (done : table.verify session.pool = .ok () pool) :
    session.Lasts { session with pool } ∧
    ∀ headerSlot < table.breadth session.pages, (table.branch session.pages headerSlot).isValid = true →
      let state := Directory.stateOf (session.pages.content (table.branch session.pages headerSlot))
      state.Counted ∧ ∀ slot < state.size, (state.bucket slot).isValid = true → ∀ list,
        Bucket.entries (⟨session.pages.content (state.bucket slot)⟩ : Bucket K V pageSize) = .ok list →
        ∀ entry ∈ list, Placed table session.pages headerSlot state slot (table.hash entry.1) ∧
          (state.home (table.hash entry.1) = state.bucket slot → table.compare entry.1 entry.1 = .eq →
            (∀ values last, table.find entry.1 pool = .ok values last → entry.2 ∈ values) ∧
            (Eased session.leases pool → ∃ values last, table.find entry.1 pool = .ok values last)) := by
  obtain ⟨vetted, still, shown, lasts⟩ := legible.passed kept done
  refine ⟨lasts, fun headerSlot less listed => ?_⟩
  intro state
  have readable := legible.readable headerSlot less listed
  have inOrder := vetted headerSlot less listed
  refine ⟨inOrder.counted, fun slot small valid list reads entry member => ?_⟩
  obtain ⟨limit, found, holds⟩ := readable.holds _ ⟨valid, slot, small, rfl⟩
  obtain rfl : found = list := Except.ok.inj (holds.entries_ok.symm.trans reads)
  have placed := inOrder.placed readable.shallow small valid holds member
  refine ⟨placed, fun home equal => ?_⟩
  -- Nothing of the table was changed by the check, so it is looked up in as it was.
  obtain ⟨legible_after, roots, leaves⟩ := legible.shown shown
  have root : table.root session.pages (table.hash entry.1) = table.branch session.pages headerSlot := by
    rw [Table.root, placed.route]
  have leaf : table.leaf session.pages (table.hash entry.1) = state.bucket slot := by
    rw [Table.leaf, root]
    exact home
  refine ⟨fun values last found => ?_, fun eased => legible_after.find_total still eased entry.1⟩
  rw [← root] at listed
  rw [← leaf] at valid holds
  rw [← shown.content _ holds.written, ← leaves _ listed] at holds
  rw [← leaves _ listed] at valid
  rw [← roots] at listed
  exact (legible_after.found still found).mem listed valid holds member equal

/-- A table of two buckets passes its check, and each entry is found where its hash leads. -/
theorem verify_sound_split : ∃ (table : Table UInt32 UInt32) (session : Session RamStore) (pool : Pool RamStore),
    Legible table session.pages ∧ table.leaf session.pages 0 ≠ table.leaf session.pages 1 ∧
      table.verify session.pool = .ok () pool ∧
      ∀ entry ∈ [((0 : UInt32), (10 : UInt32)), (1, 11)],
        ∃ values last, table.find entry.1 pool = .ok values last ∧ entry.2 ∈ values := by
  obtain ⟨table, _, session, _, _, paired⟩ := exists_split_life
  have alive := paired.alive
  have legible := alive.stores.legible
  obtain ⟨_, pool, verified, eased⟩ := (verify_runs alive.seen rfl).prompt (alive.kept.models fun _ => paired.eased)
  obtain ⟨-, all⟩ := legible.verify_sound alive.kept verified
  refine ⟨table, session, pool, legible, paired.apart, verified, fun entry stored => ?_⟩
  obtain ⟨listed, _, _, list, leads, full, reads, member⟩ := alive.stores.lies stored
  have readable := legible.rooted listed
  obtain ⟨rfl, rfl⟩ := Prod.mk.inj (Except.ok.inj (leads.symm.trans (bucketIn_ok readable.denotes readable.shallow _)))
  obtain ⟨state, limit, houses⟩ := alive.stores.rooted listed
  have formed := houses.shelves.formed
  rw [← houses.denotes.state_eq] at formed
  obtain ⟨placed, finds⟩ := (all _ (legible.route_lt _) listed).2 _ (slot_lt _ _) full list reads _ member
  have same : table.compare entry.1 entry.1 = .eq := by
    rw [paired.compares]
    exact Std.ReflCmp.compare_self
  obtain ⟨right, total⟩ := finds (placed.home (formed.aligned _)) same
  obtain ⟨values, last, found⟩ := total eased
  exact ⟨values, last, found, right values last found⟩

end Table

end PagedIndex
