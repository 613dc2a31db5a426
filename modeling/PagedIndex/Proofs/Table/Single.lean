import Mathlib
import PagedIndex.Proofs.Table.Opening

/-!
# Tables of one directory

If a header routes on no bit of the hash, all entries go to one directory, and the limits of that directory are those
of the table. An insertion does not change them.
-/

namespace PagedIndex.Table

open DirectoryState

variable {K V : Type} [FixedWidth K] [FixedWidth V] {table : Table K V} {pages after : Pages} {entries : List (K × V)}
  {depth size : Nat} {hash : UInt32}

/-- A table of one directory, with so many bits at most and so many entries to a bucket. -/
structure Single (table : Table K V) (pages : Pages) (depth size : Nat) : Prop where
  breadth : table.breadth pages = 1
  depthLimit : ∀ hash, table.depthLimit pages hash = depth
  sizeLimit : ∀ hash, table.sizeLimit pages hash = size

omit [FixedWidth K] [FixedWidth V] in
theorem depthLimit_eq (table : Table K V) (pages : Pages) (hash : UInt32) :
    table.depthLimit pages hash = (table.shape pages (table.route pages hash)).maxDepth := by
  rw [depthLimit, shape, root]
  split <;> rfl

theorem Bare.single (bare : Bare table 0 pages) (stores : Stores table pages entries) :
    Single table pages table.directoryDepth table.bucketSize := by
  have invalid : ∀ hash, (table.root pages hash).isValid = false := fun hash => bare.vacant _ (stores.route_lt hash)
  refine ⟨by rw [breadth, bare.depth, Nat.pow_zero], fun hash => ?_, fun hash => ?_⟩
  · rw [depthLimit, if_neg (by simp [invalid])]
  · rw [sizeLimit, if_neg (by simp [invalid])]

namespace Single

variable (single : Single table pages depth size) (stores : Stores table pages entries)

include single stores

theorem route_eq (hash : UInt32) : table.route pages hash = 0 := by
  have small := stores.route_lt hash
  rw [single.breadth] at small
  omega

theorem gathered_eq (hash : UInt32) (list : List (K × V)) : table.gathered pages hash list = list := by
  refine List.filter_eq_self.mpr fun entry _ => ?_
  rw [single.route_eq stores, single.route_eq stores]
  exact decide_eq_true rfl

/-- An insertion leaves the limits as they are, also when it makes the directory. -/
theorem grown {inserted : Bool} (grown : Grown table entries hash inserted pages after)
    (keeps : Keeps table pages after) : Single table after depth size := by
  have routes : ∀ other, table.route pages other = table.route pages hash := fun other => by
    rw [single.route_eq stores, single.route_eq stores]
  refine ⟨keeps.breadth.trans single.breadth, fun other => ?_, fun other => ?_⟩
  · rw [depthLimit_eq, keeps.route, routes, grown.grows.maxDepth, ← depthLimit_eq, single.depthLimit]
  · rw [grown.sizes other (routes other), single.sizeLimit]

/-- An insertion works on the one directory. -/
theorem grows {inserted : Bool} (grown : Grown table entries hash inserted pages after) :
    Grows table.hash size hash entries (table.shape pages 0) inserted (table.shape after 0) := by
  have grows := grown.grows
  rwa [single.sizeLimit, single.gathered_eq stores, single.route_eq stores] at grows

/-- The one directory is there as soon as there is an entry. -/
theorem listed {entry : K × V} (member : entry ∈ entries) : (table.branch pages 0).isValid = true := by
  rw [← single.route_eq stores (table.hash entry.1)]
  exact (stores.housed member).1

/-- All entries are in the buckets of the one directory. -/
theorem housed {entry : K × V} (member : entry ∈ entries) : (table.root pages (table.hash entry.1)).isValid = true ∧
    Houses table.hash pages (table.root pages (table.hash entry.1)) (table.shape pages 0) size entries ∧
    (∀ hash, table.leaf pages hash = (table.shape pages 0).home hash) ∧
    ((table.shape pages 0).home (table.hash entry.1)).isValid = true ∧ (table.shape pages 0).maxDepth = depth := by
  obtain ⟨valid, -, state, limit, houses, full⟩ := stores.housed member
  rw [single.gathered_eq stores] at houses
  obtain ⟨deep, many⟩ := houses.limits valid
  rw [single.depthLimit] at deep
  rw [single.sizeLimit, most,
    if_pos (houses.shelves.formed.mentions_valid (mentions_home full) 0 state.size_pos)] at many
  have same : table.shape pages 0 = state := by
    rw [← single.route_eq stores (table.hash entry.1), shape_of_valid valid]
    exact houses.denotes.state_eq
  rw [same]
  subst many
  refine ⟨valid, houses, fun hash => ?_, full, deep.symm⟩
  rw [leaf, root, single.route_eq stores hash, ← single.route_eq stores (table.hash entry.1), ← root,
    houses.denotes.state_eq]

/-- No more entries share the bucket of one than fit into it. -/
theorem shelf_le {entry : K × V} (member : entry ∈ entries) :
    (entries.filter fun other => table.leaf pages (table.hash other.1) = table.leaf pages (table.hash entry.1)).length ≤
      size := by
  obtain ⟨-, houses, leads, full, -⟩ := single.housed stores member
  have holds := houses.shelves.holds _ (mentions_home full)
  simpa only [leads, routed] using holds.length_le

theorem leaf_ne {first second : K × V} (both : entries = [first, second]) (one : size = 1) :
    table.leaf pages (table.hash first.1) ≠ table.leaf pages (table.hash second.1) := by
  intro same
  have few := single.shelf_le stores (show first ∈ entries by simp [both])
  subst both
  simp [same, one] at few

end Single

end PagedIndex.Table
