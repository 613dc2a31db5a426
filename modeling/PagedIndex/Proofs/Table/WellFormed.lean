import Mathlib
import PagedIndex.Proofs.Table.Life

/-!
# Well-formed tables

However a table was used and whatever failed meanwhile, its directories are well-formed, every entry is where
its hash leads, and no page belongs to two directories.
-/

namespace PagedIndex.Table

open DirectoryState

variable {K V σ : Type} [FixedWidth K] [FixedWidth V] {table : Table K V} {pages : Pages} {entries : List (K × V)}
  {slot : Nat}

def layout (table : Table K V) (pages : Pages) (slot : Nat) : DirectoryState :=
  Directory.stateOf (pages.content (table.branch pages slot))

/-- A bucket page may be read, holds no more than its limit, and all its entries belong into some slot of some
directory. -/
structure Shelved (table : Table K V) (pages : Pages) (limit headerSlot slot depth : Nat) (bucket : PageId) : Prop where
  ofBytes : Bucket.ofBytes (pages.content bucket) = .ok (⟨pages.content bucket⟩ : Bucket K V pageSize)
  limit_ok : Bucket.limit (⟨pages.content bucket⟩ : Bucket K V pageSize) = .ok limit
  size_ok : ∃ size, Bucket.size (⟨pages.content bucket⟩ : Bucket K V pageSize) = .ok size ∧ size ≤ limit
  entries_ok : ∃ list, Bucket.entries (⟨pages.content bucket⟩ : Bucket K V pageSize) = .ok list ∧
    ∀ entry ∈ list, Header.slotFor ⟨pages.content table.header⟩ (table.hash entry.1) = .ok headerSlot ∧
      (table.hash entry.1).toNat % 2 ^ depth = slot % 2 ^ depth

structure WellFormed (table : Table K V) (pages : Pages) : Prop where
  header : Header.ofBytes (pages.content table.header) = .ok ⟨pages.content table.header⟩
  directory : ∀ slot < table.breadth pages, (table.branch pages slot).isValid = true →
    Directory.ofBytes (pages.content (table.branch pages slot)) = .ok ⟨pages.content (table.branch pages slot)⟩
  formed : ∀ slot < table.breadth pages, (table.branch pages slot).isValid = true → (table.layout pages slot).Formed
  buckets : ∀ headerSlot < table.breadth pages, (table.branch pages headerSlot).isValid = true →
    ∃ limit, ∀ slot < (table.layout pages headerSlot).size,
      ((table.layout pages headerSlot).bucket slot).isValid = true →
      table.Shelved pages limit headerSlot slot ((table.layout pages headerSlot).depth slot)
        ((table.layout pages headerSlot).bucket slot)
  apart : ∀ a < table.breadth pages, ∀ b < table.breadth pages, (table.branch pages a).isValid = true →
    (table.branch pages b).isValid = true → a ≠ b →
    ∀ page, Reaches pages (table.branch pages a) page → ¬ Reaches pages (table.branch pages b) page
  header_apart : ∀ slot < table.breadth pages, (table.branch pages slot).isValid = true →
    ¬ Reaches pages (table.branch pages slot) table.header

theorem Houses.belongs {headerSlot limit : Nat} {state : DirectoryState} {directory : PageId}
    (houses : Houses table.hash pages directory state limit (routed table.hash (table.route pages) headerSlot entries))
    (small : slot < state.size) {entry : K × V}
    (member : entry ∈ routed table.hash state.home (state.bucket slot)
      (routed table.hash (table.route pages) headerSlot entries)) :
    table.route pages (table.hash entry.1) = headerSlot ∧
      (table.hash entry.1).toNat % 2 ^ state.depth slot = slot % 2 ^ state.depth slot := by
  obtain ⟨routed_here, home⟩ := List.mem_filter.mp member
  have route := (List.mem_filter.mp routed_here).2
  rw [decide_eq_true_eq] at home route
  exact ⟨route, ((houses.shelves.formed.home_eq_iff small _).mp home).symm⟩

theorem Stores.shelved (stores : Stores table pages entries) {headerSlot limit : Nat} {state : DirectoryState}
    (houses : Houses table.hash pages (table.branch pages headerSlot) state limit
      (routed table.hash (table.route pages) headerSlot entries))
    (small : slot < state.size) (valid : (state.bucket slot).isValid = true) :
    table.Shelved pages limit headerSlot slot (state.depth slot) (state.bucket slot) := by
  have mentioned : state.Mentions (state.bucket slot) := ⟨valid, slot, small, rfl⟩
  have holds := houses.shelves.holds _ mentioned
  refine ⟨holds.ofBytes, holds.limit, ⟨_, holds.size, holds.length_le⟩, _, holds.entries_ok, fun entry member => ?_⟩
  obtain ⟨route, low⟩ := houses.belongs small member
  exact ⟨by rw [stores.routes.slotFor, ← route, Table.route], low⟩

theorem Stores.wellFormed (stores : Stores table pages entries) : table.WellFormed pages where
  header := stores.routes.ofBytes
  directory slot small valid := by
    obtain ⟨state, limit, houses⟩ := stores.houses slot small valid
    exact houses.denotes.ofBytes
  formed slot small valid := by
    obtain ⟨state, limit, houses⟩ := stores.houses slot small valid
    rw [layout, houses.denotes.state_eq]
    exact houses.shelves.formed
  buckets headerSlot small valid := by
    obtain ⟨state, limit, houses⟩ := stores.houses headerSlot small valid
    rw [layout, houses.denotes.state_eq]
    exact ⟨limit, fun slot little real => stores.shelved houses little real⟩
  apart := stores.apart
  header_apart slot small valid := stores.header_apart small valid

/-- Calls that fail half-way, for want of a frame or through the store, keep a table well-formed as all others do. -/
theorem Life.well_formed [BackingStore σ] [PageKeeper σ] [RoundTrips K] [RoundTrips V]
    {start session : Session σ} {deeds : List (Deed K V)} (created : Created table start)
    (life : Life table start deeds session) : table.WellFormed session.pages := by
  obtain ⟨list, alive, _⟩ := life.alive created.alive
  exact alive.stores.wellFormed

/-- A table is well-formed after one of its buckets was split. -/
theorem well_formed_split : ∃ (table : Table UInt32 UInt32) (start session : Session RamStore),
    Life table start [.inserted 0 10 (.ok true), .inserted 1 11 (.ok true)] session ∧
      table.leaf session.pages 0 ≠ table.leaf session.pages 1 ∧ table.WellFormed session.pages := by
  obtain ⟨table, start, session, created, life, paired⟩ := exists_split_life
  exact ⟨table, start, session, life, paired.apart, life.well_formed created⟩

end PagedIndex.Table
