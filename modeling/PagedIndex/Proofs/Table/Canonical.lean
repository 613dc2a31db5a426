import Mathlib
import PagedIndex.Proofs.Table.Compact

/-!
# Tables that do not depend on the order of insertions

A bucket uses one bit more just when more entries than it may hold agree in the bits so far. So the depths of a
directory are a matter of the entries that it holds, and not of the order in which they came.
-/

namespace PagedIndex

namespace Table

open DirectoryState

section Depths

variable {K V : Type} {hash : K → UInt32} {state last other : DirectoryState} {entries list : List (K × V)}
  {slot most : Nat}

/-- Every bit that a bucket uses was called for by more entries than one bucket may hold. -/
def Warranted (hash : K → UInt32) (most : Nat) (state : DirectoryState) (entries : List (K × V)) : Prop :=
  ∀ slot < state.size, ∀ depth < state.depth slot, most < load hash depth slot entries

theorem Warranted.sublist (warranted : Warranted hash most state entries) (part : entries.Sublist list) :
    Warranted hash most state list := fun slot small depth deep =>
  Nat.lt_of_lt_of_le (warranted slot small depth deep) (load_sublist part depth slot)

theorem Warranted.deepens {key : UInt32} (warranted : Warranted hash most state entries) (formed : state.Formed)
    (above : most < load hash (state.reach key) key.toNat entries) (deepens : state.Deepens key last) :
    Warranted hash most last entries := by
  intro slot small depth deep
  rw [deepens.depth slot small] at deep
  split at deep
  · rename_i here
    rw [← load_congr here] at above
    exact Nat.lt_of_lt_of_le above (load_anti (Nat.le_of_lt_succ deep) slot entries)
  · have less := Nat.mod_lt slot state.size_pos
    have below := formed.depth_le _ less
    rw [load_congr (mod_size_mod (by omega : depth ≤ state.globalDepth) slot).symm]
    exact warranted _ less depth deep

theorem Grows.warranted {key : K} (value : V) (grows : Grows hash most (hash key) entries state true last)
    (formed : state.Formed) (warranted : Warranted hash most state (entries ++ [(key, value)])) :
    Warranted hash most last (entries ++ [(key, value)]) := by
  generalize yes : true = inserted at grows
  induction grows with
  | @first state page flat =>
    intro slot small depth deep
    have zero : slot = 0 := by
      change slot < 2 ^ state.globalDepth at small
      rw [flat] at small
      omega
    simp [setDepth, zero] at deep
  | put => exact warranted
  | refused => cases yes
  | @split state middle last inserted formed_middle full deepens rest ih =>
    refine ih formed_middle (warranted.deepens formed ?_ deepens) yes
    have crowded : load hash (state.reach (hash key)) (hash key).toNat entries = most := full
    rw [load, List.countP_append, ← load, crowded]
    simp

/-- The depths of a directory are those that its entries call for. -/
structure Fitted (hash : K → UInt32) (most : Nat) (state : DirectoryState) (entries : List (K × V)) : Prop where
  formed : state.Formed
  compact : Compact hash state entries
  warranted : Warranted hash most state entries
  tight : ∀ slot < state.size, load hash (state.depth slot) slot entries ≤ most

theorem Fitted.depth_le (fitted : Fitted hash most state entries) (fits : Fitted hash most other list)
    (same : entries.Perm list) (small : slot < state.size) : state.depth slot ≤ other.depth (slot % other.size) := by
  by_contra deeper
  have less := Nat.mod_lt slot other.size_pos
  have above := fitted.warranted slot small _ (Nat.not_le.mp deeper)
  have within := fits.tight _ less
  rw [load_congr (mod_size_mod (fits.formed.depth_le _ less) slot), ← load_perm same] at within
  omega

theorem Fitted.global_le (fitted : Fitted hash most state entries) (fits : Fitted hash most other list)
    (same : entries.Perm list) : state.globalDepth ≤ other.globalDepth := by
  obtain ⟨slot, small, deepest⟩ := fitted.formed.deepest fitted.compact.least
  rw [← deepest]
  exact Nat.le_trans (fitted.depth_le fits same small) (fits.formed.depth_le _ (Nat.mod_lt slot other.size_pos))

/-- Directories with the same entries are equally deep, everywhere. -/
theorem Fitted.unique (fitted : Fitted hash most state entries) (fits : Fitted hash most other list)
    (same : entries.Perm list) : other.globalDepth = state.globalDepth ∧
      ∀ slot < state.size, other.depth slot = state.depth slot := by
  have equal : other.globalDepth = state.globalDepth :=
    Nat.le_antisymm (fits.global_le fitted same.symm) (fitted.global_le fits same)
  have sizes : other.size = state.size := by rw [size, equal, size]
  refine ⟨equal, fun slot small => Nat.le_antisymm ?_ ?_⟩
  · have le : other.depth slot ≤ state.depth (slot % state.size) := fits.depth_le fitted same.symm (by omega)
    rwa [Nat.mod_eq_of_lt small] at le
  · have le := fitted.depth_le fits same small
    rwa [Nat.mod_eq_of_lt (by omega)] at le

end Depths

/-! ### Tables that nothing is taken out of -/

variable {K V σ : Type} [FixedWidth K] [FixedWidth V] {table other : Table K V} {pages after : Pages}
  {entries list : List (K × V)} {key : K} {value : V}

section Crowds

variable {α : Type} [DecidableEq α] {hash : K → UInt32} {route : UInt32 → α} {place : α} {depth : Nat}

omit [FixedWidth K] [FixedWidth V] in
theorem crowd_append_home (key : K) (value : V) :
    crowd hash depth (hash key) (routed hash route (route (hash key)) (entries ++ [(key, value)])) =
      crowd hash depth (hash key) (routed hash route (route (hash key)) entries) + 1 := by
  rw [routed_append_home, crowd, List.countP_append, ← crowd]
  simp

omit [FixedWidth K] [FixedWidth V] in
theorem crowd_subperm (part : entries.Subperm list) (key : UInt32) (place : α) :
    crowd hash depth key (routed hash route place entries) ≤ crowd hash depth key (routed hash route place list) :=
  (part.filter _).countP_le _

end Crowds

/-- A table in which every directory was made for an entry, and every bucket split for one. -/
structure Dense (table : Table K V) (pages : Pages) (entries : List (K × V)) : Prop where
  trim : Trim table pages entries
  occupied : ∀ slot < table.breadth pages, (table.branch pages slot).isValid = true →
    routed table.hash (table.route pages) slot entries ≠ []
  maxDepth : ∀ slot < table.breadth pages, (table.shape pages slot).maxDepth = table.directoryDepth
  warranted : ∀ slot < table.breadth pages, Warranted table.hash table.bucketSize (table.shape pages slot)
    (routed table.hash (table.route pages) slot entries)
  sizes : ∀ hash, table.sizeLimit pages hash = table.bucketSize

omit [FixedWidth K] [FixedWidth V] in
theorem sizeLimit_congr {hash : UInt32} (route : table.route after = table.route pages)
    (linked : table.branch after (table.route pages hash) = table.branch pages (table.route pages hash))
    (same : (table.root pages hash).isValid = true → ∀ page, Reaches pages (table.root pages hash) page →
      after.content page = pages.content page) : table.sizeLimit after hash = table.sizeLimit pages hash := by
  have root_same : table.root after hash = table.root pages hash := by rw [root, route, linked, root]
  rw [sizeLimit, sizeLimit, root_same]
  by_cases valid : (table.root pages hash).isValid = true
  · rw [same valid _ (.inl rfl)]
    by_cases full : ((Directory.stateOf (pages.content (table.root pages hash))).home hash).isValid = true
    · rw [if_pos ⟨valid, full⟩, if_pos ⟨valid, full⟩, same valid _ (.inr (mentions_home full))]
    · rw [if_neg fun both => full both.2, if_neg fun both => full both.2]
  · rw [if_neg fun both => valid both.1, if_neg fun both => valid both.1]

omit [FixedWidth K] [FixedWidth V] in
theorem Bare.dense {depth : Nat} (bare : Bare table depth pages)
    (small : ∀ hash, table.route pages hash < table.breadth pages) : Dense table pages [] where
  trim := bare.trim
  occupied slot small valid := by
    rw [bare.vacant slot small] at valid
    cases valid
  maxDepth slot small := by
    rw [shape_of_invalid (bare.vacant slot small)]
    rfl
  warranted slot small := by
    rw [shape_of_invalid (bare.vacant slot small)]
    exact fun _ _ _ deep => absurd deep (Nat.not_lt_zero _)
  sizes hash := by
    have invalid : (table.root pages hash).isValid = false := bare.vacant _ (small hash)
    rw [sizeLimit, if_neg (by simp [invalid])]

theorem Grown.dense (grown : Grown table entries (table.hash key) true pages after)
    (stores : Stores table pages entries) (keeps : Keeps table pages after) (dense : Dense table pages entries) :
    Dense table after (entries ++ [(key, value)]) where
  trim := by
    have trim : Trim table after (if true then entries ++ [(key, value)] else entries) :=
      grown.trim stores keeps dense.trim
    exact trim
  occupied slot small valid := by
    rw [keeps.breadth] at small
    rw [keeps.route]
    by_cases same : table.route pages (table.hash key) = slot
    · rw [← same, routed_append_home]
      exact List.append_ne_nil_of_right_ne_nil _ (List.cons_ne_nil _ _)
    · rw [(grown.elsewhere slot small same).1] at valid
      rw [routed_append_other same]
      exact dense.occupied slot small valid
  maxDepth slot small := by
    rw [keeps.breadth] at small
    by_cases same : table.route pages (table.hash key) = slot
    · rw [← same, grown.grows.maxDepth]
      exact dense.maxDepth _ (stores.route_lt _)
    · rw [grown.elsewhere.shape small same]
      exact dense.maxDepth slot small
  warranted slot small := by
    rw [keeps.breadth] at small
    rw [keeps.route]
    by_cases same : table.route pages (table.hash key) = slot
    · have grows := grown.grows
      rw [dense.sizes] at grows
      rw [← same, routed_append_home]
      have before := dense.warranted _ (stores.route_lt (table.hash key))
      exact grows.warranted value (stores.shape_formed (stores.route_lt _))
        (before.sublist (List.sublist_append_left _ _))
    · rw [grown.elsewhere.shape small same, routed_append_other same]
      exact dense.warranted slot small
  sizes hash := by
    by_cases same : table.route pages hash = table.route pages (table.hash key)
    · rw [grown.sizes hash same, dense.sizes]
    · obtain ⟨linked, unchanged⟩ := grown.elsewhere _ (stores.route_lt hash) (Ne.symm same)
      rw [sizeLimit_congr keeps.route linked unchanged, dense.sizes]

theorem Dense.congr (dense : Dense table pages entries) (stores : Stores table pages entries)
    (same : ∀ page, Owns table pages page → after.content page = pages.content page) : Dense table after entries := by
  obtain ⟨branches, breadths, routing⟩ := outline_congr (same table.header (.inl rfl))
  have shapes : ∀ slot < table.breadth pages, table.shape after slot = table.shape pages slot := fun slot small =>
    shape_congr (by rw [branches]) fun valid => same _ (.inr ⟨slot, small, valid, .inl rfl⟩)
  refine ⟨dense.trim.congr same, ?_, fun slot small => ?_, fun slot small => ?_, fun hash => ?_⟩
  · rw [branches, breadths, routing]
    exact dense.occupied
  · rw [breadths] at small
    rw [shapes slot small]
    exact dense.maxDepth slot small
  · rw [breadths] at small
    rw [shapes slot small, routing]
    exact dense.warranted slot small
  · rw [sizeLimit_congr routing (by rw [branches]) fun valid page reached =>
      same page (.inr ⟨_, stores.route_lt hash, valid, reached⟩)]
    exact dense.sizes hash

theorem Stores.fitted (stores : Stores table pages entries) (dense : Dense table pages entries) {slot : Nat}
    (small : slot < table.breadth pages) (valid : (table.branch pages slot).isValid = true) : ∃ state,
      Houses table.hash pages (table.branch pages slot) state table.bucketSize
        (routed table.hash (table.route pages) slot entries) ∧
      (∀ other < state.size, (state.bucket other).isValid = true) ∧ state.maxDepth = table.directoryDepth ∧
      Fitted table.hash table.bucketSize state (routed table.hash (table.route pages) slot entries) := by
  obtain ⟨state, limit, houses⟩ := stores.houses slot small valid
  have formed := houses.shelves.formed
  have shape : table.shape pages slot = state := (shape_of_valid valid).trans houses.denotes.state_eq
  have first : (state.bucket 0).isValid = true := by
    by_contra vacant
    exact dense.occupied slot small valid (houses.shelves.empty (by simpa using vacant))
  have full := formed.full state.size_pos first
  obtain ⟨entry, member⟩ := List.exists_mem_of_ne_nil _ (dense.occupied slot small valid)
  have here : table.route pages (table.hash entry.1) = slot := by simpa using (List.mem_filter.mp member).2
  subst here
  have limits : Houses table.hash pages (table.root pages (table.hash entry.1)) state limit _ := houses
  have size : limit = table.bucketSize := by
    rw [← dense.sizes (table.hash entry.1), (limits.limits valid).2, most, if_pos first]
  subst size
  have compact := dense.trim _ small
  have warranted := dense.warranted _ small
  have depth := dense.maxDepth _ small
  rw [shape] at compact warranted depth
  refine ⟨state, houses, full, depth, formed, compact, warranted, fun other little => ?_⟩
  rw [← length_routed formed little]
  exact (houses.shelves.holds _ ⟨full other little, other, little, rfl⟩).length_le

/-- No hash has more rivals than a bucket may hold, nor could it have more in any other order. -/
theorem Dense.crowd_le (dense : Dense table pages entries) (stores : Stores table pages entries) (hash : UInt32) :
    crowd table.hash table.directoryDepth hash (table.gathered pages hash entries) ≤ table.bucketSize := by
  have small := stores.route_lt hash
  by_cases valid : (table.root pages hash).isValid = true
  · obtain ⟨state, houses, _, depth, fitted⟩ := stores.fitted dense small valid
    have deep : state.reach hash ≤ table.directoryDepth := by
      rw [← depth]
      exact fitted.formed.reach_le hash
    have tight := fitted.tight _ (state.slot_lt hash)
    rw [← reach, load_congr (mod_size_mod (fitted.formed.reach_le_global hash) hash.toNat)] at tight
    exact Nat.le_trans (load_anti deep hash.toNat _) tight
  · have nowhere : (table.root pages hash).isValid = false := by simpa using valid
    have nothing : table.gathered pages hash entries = [] := stores.vacant _ small nowhere
    rw [nothing]
    exact Nat.zero_le _

/-! ### Runs of insertions -/

namespace Deed

def put? : Deed K V → Option (K × V)
  | inserted key value _ => some (key, value)
  | _ => none

/-- An insertion or a lookup that did not fail. -/
def Tried : Deed K V → Prop
  | inserted _ _ (.ok _) | found _ (.ok _) => True
  | _ => False

/-- An insertion that found room, or a lookup that did not fail. -/
def Stored : Deed K V → Prop
  | inserted _ _ (.ok true) | found _ (.ok _) => True
  | _ => False

def puts (deeds : List (Deed K V)) : List (K × V) := deeds.filterMap put?

end Deed

variable [BackingStore σ] [PageKeeper σ] [RoundTrips K] [RoundTrips V] {start session : Session σ}
  {deeds : List (Deed K V)}

theorem Life.dense (life : Life table start deeds session) (alive : Alive table start [])
    (dense : Dense table start.pages []) (stored : ∀ deed ∈ deeds, deed.Stored) :
    Alive table session (Deed.puts deeds) ∧ Dense table session.pages (Deed.puts deeds) ∧
      Keeps table start.pages session.pages := by
  -- Induction on the run: what is stored is what was put in so far.
  induction life with
  | begun => exact ⟨alive, dense, .refl table _⟩
  | @inserted deeds session pool before key value answer done ih =>
    obtain ⟨alive, dense, keeps⟩ := ih fun deed member => stored deed (List.mem_append_left _ member)
    have last := stored (.inserted key value answer) (by simp)
    match answer with
    | .ok true =>
      obtain ⟨still, more, _⟩ := alive.inserted done
      rw [Deed.puts, List.filterMap_append]
      exact ⟨still, (alive.grown done).dense alive.stores more dense, keeps.trans more⟩
  | @found deeds session pool before key answer done ih =>
    obtain ⟨alive, dense, keeps⟩ := ih fun deed member => stored deed (List.mem_append_left _ member)
    have same : Deed.puts (deeds ++ [.found key answer]) = Deed.puts deeds := by
      rw [Deed.puts, List.filterMap_append]
      exact List.append_nil _
    rw [same]
    obtain ⟨still, more, _⟩ := alive.found done
    refine ⟨still, ?_, keeps.trans more⟩
    exact dense.congr alive.stores (alive.found_same done)
  | @removed deeds session pool before key answer done ih => exact (stored (.removed key answer) (by simp)).elim
  | outside before step spares ih =>
    obtain ⟨alive, dense, keeps⟩ := ih stored
    obtain ⟨still, more⟩ := alive.outside step spares
    exact ⟨still, dense.congr alive.stores (alive.spared step spares), keeps.trans more⟩

/-- A new table of given options, whatever it is called. -/
inductive Founded (hash : K → UInt32) (options : Options) : Table K V → Session σ → Prop where
  | made {table : Table K V} {store : σ} {events : List Event} {session : Session σ}
      (run : Session.Run store events session) (name : String) (compare : K → K → Ordering) {pool : Pool σ}
      (done : Table.create name compare hash options session.pool = .ok table pool) :
      Founded hash options table { session with pool }

/-- The pages of a table that began so and had nothing taken out. -/
structure Stocked (hash : K → UInt32) (options : Options) (table : Table K V) (pages : Pages)
    (entries : List (K × V)) : Prop where
  stores : Stores table pages entries
  dense : Dense table pages entries
  hash : table.hash = hash
  size : table.bucketSize = options.bucketLimit K V
  depth : table.directoryDepth = options.directoryDepth
  breadth : table.breadth pages = 2 ^ options.headerDepth
  route : table.route pages = Header.slotOf options.headerDepth

omit [RoundTrips K] [RoundTrips V] in
theorem Founded.stocked {hash : K → UInt32} {options : Options} (founded : Founded hash options table start) :
    Alive table start [] ∧ Stocked hash options table start.pages [] := by
  obtain ⟨run, name, compare, done⟩ := founded
  obtain ⟨rfl, alive, bare⟩ := made_alive run done
  refine ⟨alive, alive.stores, bare.dense alive.stores.route_lt, rfl, rfl, rfl, ?_, ?_⟩
  · rw [Table.breadth, bare.depth]
  · rw [Table.route, bare.depth]

theorem Stocked.life {hash : K → UInt32} {options : Options} (stocked : Stocked hash options table start.pages [])
    (alive : Alive table start []) (life : Life table start deeds session) (stored : ∀ deed ∈ deeds, deed.Stored) :
    Alive table session (Deed.puts deeds) ∧ Stocked hash options table session.pages (Deed.puts deeds) := by
  obtain ⟨still, dense, keeps⟩ := life.dense alive stocked.dense stored
  exact ⟨still, still.stores, dense, stocked.hash, stocked.size, stocked.depth, keeps.breadth.trans stocked.breadth,
    keeps.route.trans stocked.route⟩

omit [RoundTrips K] [RoundTrips V] in
/-- If some table holds entries, an insertion of one of them into another that holds some of the rest finds room. -/
theorem Stocked.roomy {hash : K → UInt32} {options : Options} {others : Pages}
    (full : Stocked hash options table pages list) (part : Stocked hash options other others entries)
    (some_of : (entries ++ [(key, value)]).Subperm list) :
    other.rivals others (other.hash key) entries < other.sizeLimit others (other.hash key) := by
  have depth : other.depthLimit others (other.hash key) = options.directoryDepth := by
    have small := part.stores.route_lt (other.hash key)
    rw [← part.depth, ← part.dense.maxDepth _ small, shape, depthLimit, root]
    split <;> rfl
  have bound := full.dense.crowd_le full.stores (hash key)
  rw [gathered, full.route, full.hash, full.depth, full.size] at bound
  rw [rivals, depth, part.dense.sizes, part.size, gathered, part.route, part.hash]
  refine Nat.lt_of_lt_of_le (Nat.lt_of_succ_le ?_) bound
  rw [← Nat.add_one, ← crowd_append_home]
  exact crowd_subperm some_of _ _

/-- What one table has taken, every other of the same options takes in any order. -/
theorem Life.all_stored {hash : K → UInt32} {options : Options} (full : Stocked hash options other pages list)
    (stocked : Stocked hash options table start.pages []) (alive : Alive table start [])
    (life : Life table start deeds session) (tried : ∀ deed ∈ deeds, deed.Tried)
    (part : (Deed.puts deeds).Subperm list) : ∀ deed ∈ deeds, deed.Stored := by
  -- Induction on the life: what was put in so far is a part of the list, which leaves room for the next entry.
  induction life with
  | begun => exact fun deed member => nomatch member
  | @inserted deeds session pool before key value answer done ih =>
    rw [Deed.puts, List.filterMap_append] at part
    have earlier := ih (fun deed member => tried deed (List.mem_append_left _ member))
      ((List.sublist_append_left _ _).subperm.trans part)
    have last : (Deed.inserted key value answer).Stored := by
      have came := tried (.inserted key value answer) (by simp)
      obtain ⟨living, filled⟩ := stocked.life alive before earlier
      match answer with
      | .ok yes =>
        have roomy := full.roomy filled part
        have refused := (living.inserted done).2.2 yes rfl
        cases yes with
        | true => exact trivial
        | false => exact absurd (refused.mp rfl) (Nat.ne_of_lt roomy)
    exact List.forall_mem_append.mpr ⟨earlier, List.forall_mem_singleton.mpr last⟩
  | @found deeds session pool before key answer done ih =>
    rw [Deed.puts, List.filterMap_append] at part
    have earlier := ih (fun deed member => tried deed (List.mem_append_left _ member))
      ((List.sublist_append_left _ _).subperm.trans part)
    have last : (Deed.found key answer).Stored := by
      have came := tried (.found key answer) (by simp)
      match answer with
      | .ok values => exact trivial
    exact List.forall_mem_append.mpr ⟨earlier, List.forall_mem_singleton.mpr last⟩
  | @removed deeds session pool before key answer done ih => exact (tried (.removed key answer) (by simp)).elim
  | outside before step spares ih => exact ih tried part

/-! ### The same shape -/

/-- Two directories are equally deep everywhere, share buckets in the same slots, and have the same entries in them,
in some order. -/
structure AlikeDirectories (K V : Type) [FixedWidth K] [FixedWidth V] (pages : Pages) (state : DirectoryState)
    (others : Pages) (other : DirectoryState) : Prop where
  maxDepth : other.maxDepth = state.maxDepth
  globalDepth : other.globalDepth = state.globalDepth
  depth : ∀ slot < state.size, other.depth slot = state.depth slot
  shared : ∀ a < state.size, ∀ b < state.size, other.bucket a = other.bucket b ↔ state.bucket a = state.bucket b
  entries : ∀ slot < state.size, (state.bucket slot).isValid = true ∧ (other.bucket slot).isValid = true ∧
    ∃ list rearranged, Bucket.entries (⟨pages.content (state.bucket slot)⟩ : Bucket K V pageSize) = .ok list ∧
      Bucket.entries (⟨others.content (other.bucket slot)⟩ : Bucket K V pageSize) = .ok rearranged ∧
      rearranged.Perm list

/-- Two tables have directories in the same slots of their headers, and these are alike. -/
structure Alike (table : Table K V) (pages : Pages) (other : Table K V) (others : Pages) : Prop where
  breadth : other.breadth others = table.breadth pages
  valid : ∀ slot < table.breadth pages, (other.branch others slot).isValid = (table.branch pages slot).isValid
  directories : ∀ slot < table.breadth pages, (table.branch pages slot).isValid = true →
    AlikeDirectories K V pages (table.layout pages slot) others (other.layout others slot)

omit [BackingStore σ] [PageKeeper σ] [RoundTrips K] [RoundTrips V] in
theorem Dense.valid_iff (dense : Dense table pages entries) (stores : Stores table pages entries) {slot : Nat}
    (small : slot < table.breadth pages) :
    (table.branch pages slot).isValid = true ↔ routed table.hash (table.route pages) slot entries ≠ [] := by
  refine ⟨dense.occupied slot small, fun some_entry => ?_⟩
  by_contra invalid
  exact some_entry (stores.vacant slot small (by simpa using invalid))

omit [BackingStore σ] [PageKeeper σ] [RoundTrips K] [RoundTrips V] in
theorem Houses.alike {hash : K → UInt32} {others : Pages} {directory elsewhere : PageId} {state last : DirectoryState}
    {most : Nat} (houses : Houses hash pages directory state most entries)
    (rebuilt : Houses hash others elsewhere last most list)
    (full : ∀ slot < state.size, (state.bucket slot).isValid = true)
    (full_last : ∀ slot < last.size, (last.bucket slot).isValid = true) (maxDepth : last.maxDepth = state.maxDepth)
    (fitted : Fitted hash most state entries) (fits : Fitted hash most last list) (same : list.Perm entries) :
    AlikeDirectories K V pages state others last := by
  obtain ⟨equal, depths⟩ := fitted.unique fits same.symm
  have sizes : last.size = state.size := by rw [size, equal, size]
  refine ⟨maxDepth, equal, depths, fun a small_a b small_b => ?_, fun slot small => ?_⟩
  · rw [fits.formed.share_iff a (by omega) b (by omega), fitted.formed.share_iff a small_a b small_b, depths a small_a]
  · have little : slot < last.size := by omega
    have valid := full slot small
    have valid_last := full_last slot little
    have holds := houses.shelves.holds _ ⟨valid, slot, small, rfl⟩
    have holds_last := rebuilt.shelves.holds _ ⟨valid_last, slot, little, rfl⟩
    refine ⟨valid, valid_last, _, _, holds.entries_ok, holds_last.entries_ok, ?_⟩
    -- The bits that lead into the bucket are the same in both.
    have leads : ∀ entry : K × V, last.home (hash entry.1) = last.bucket slot ↔
        state.home (hash entry.1) = state.bucket slot := fun entry => by
      rw [fits.formed.home_eq_iff little, fitted.formed.home_eq_iff small, depths slot small]
    simp only [routed, leads]
    exact same.filter _

omit [BackingStore σ] [PageKeeper σ] [RoundTrips K] [RoundTrips V] in
theorem Stocked.alike {hash : K → UInt32} {options : Options} {others : Pages}
    (first : Stocked hash options table pages entries) (second : Stocked hash options other others list)
    (same : list.Perm entries) : Alike table pages other others := by
  have breadths := second.breadth.trans first.breadth.symm
  have permuted : ∀ slot, (routed other.hash (other.route others) slot list).Perm
      (routed table.hash (table.route pages) slot entries) := fun slot => by
    rw [second.hash, second.route, first.hash, first.route]
    exact same.filter _
  have valid_iff : ∀ slot < table.breadth pages,
      ((other.branch others slot).isValid = true ↔ (table.branch pages slot).isValid = true) := fun slot small => by
    rw [second.dense.valid_iff second.stores (by omega), first.dense.valid_iff first.stores small]
    rw [ne_eq, ← List.length_eq_zero_iff, (permuted slot).length_eq, List.length_eq_zero_iff]
  refine ⟨breadths, fun slot small => Bool.eq_iff_iff.mpr (valid_iff slot small), fun slot small valid => ?_⟩
  obtain ⟨state, houses, full, deep, fitted⟩ := first.stores.fitted first.dense small valid
  obtain ⟨state', houses', full', deep', fitted'⟩ :=
    second.stores.fitted second.dense (by omega) ((valid_iff slot small).mpr valid)
  rw [layout, layout, houses.denotes.state_eq, houses'.denotes.state_eq]
  have agree := permuted slot
  rw [second.hash, second.size] at houses' fitted'
  rw [second.hash] at agree
  rw [first.hash, first.size] at houses fitted
  rw [first.hash] at agree
  exact houses.alike houses' full full' (by rw [deep', deep, second.depth, first.depth]) fitted fitted' agree

/-- The order of insertions has no part in what a table comes to: if every insertion of some run found room, so does
every one of a run in another order, and the two tables are alike. -/
theorem Life.canonical {τ : Type} [BackingStore τ] [PageKeeper τ] {hash : K → UInt32} {options : Options}
    {fresh last : Session τ} {tries : List (Deed K V)} (founded : Founded hash options table start)
    (life : Life table start deeds session) (stored : ∀ deed ∈ deeds, deed.Stored)
    (refounded : Founded hash options other fresh) (again : Life other fresh tries last)
    (tried : ∀ deed ∈ tries, deed.Tried) (same : (Deed.puts tries).Perm (Deed.puts deeds)) :
    (∀ deed ∈ tries, deed.Stored) ∧ Alike table session.pages other last.pages := by
  obtain ⟨alive, begun⟩ := founded.stocked
  obtain ⟨alive_fresh, begun_fresh⟩ := refounded.stocked
  obtain ⟨_, stocked⟩ := begun.life alive life stored
  have all := Life.all_stored stocked begun_fresh alive_fresh again tried same.subperm
  exact ⟨all, stocked.alike (begun_fresh.life alive_fresh again all).2 same⟩

omit [BackingStore σ] [PageKeeper σ] [RoundTrips K] [RoundTrips V] in
theorem Stocked.few {hash : K → UInt32} {options : Options} (stocked : Stocked hash options table pages entries)
    (few : entries.length < options.bucketLimit K V) (key : UInt32) :
    table.rivals pages key entries ≠ table.sizeLimit pages key := by
  rw [stocked.dense.sizes, stocked.size]
  exact Nat.ne_of_lt (Nat.lt_of_le_of_lt (List.countP_le_length.trans (List.length_filter_le ..)) few)

theorem Stocked.insert_stored {hash : K → UInt32} {options : Options}
    (stocked : Stocked hash options table session.pages entries) (alive : Alive table session entries)
    (few : entries.length < options.bucketLimit K V) (eased : Pool.Eased session.leases session.pool)
    (room : session.pool.next.toNat + (maxDirectoryDepth + 3) < wordBound) (key : K) (value : V) :
    ∃ pool, Pool.Answers (table.insert key value) session.pool (.ok true) pool ∧ Pool.Eased session.leases pool ∧
      pool.next.toNat ≤ session.pool.next.toNat + (maxDirectoryDepth + 2) := by
  obtain ⟨pool, done, eased, made⟩ := alive.insert_answered eased room key value
  rw [bne_iff_ne.mpr (stocked.few few _)] at done
  exact ⟨pool, done, eased, made⟩

theorem exists_stored (first second : UInt32 × UInt32) :
    ∃ (table : Table UInt32 UInt32) (start session : Session RamStore), Founded (fun key => key) {} table start ∧
      Life table start [.inserted first.1 first.2 (.ok true), .inserted second.1 second.2 (.ok true)] session := by
  have two : 1 < Options.bucketLimit UInt32 UInt32 {} := by decide
  obtain ⟨pool, begun, table, -, run, -, done, eased, begins⟩ := exists_founded {} rfl
  have one : begun.next.toNat = 1 := by
    rw [begins]
    rfl
  have founded : Founded (fun key => key) {} table _ := .made run _ _ done
  obtain ⟨alive, stocked⟩ := founded.stocked
  obtain ⟨once, inserts, eased, bound⟩ := stocked.insert_stored alive (Nat.lt_of_succ_lt two) eased (by
    change begun.next.toNat + _ < _
    rw [one]
    decide) first.1 first.2
  have life := Life.begun.inserted first.1 first.2 inserts
  obtain ⟨alive, stocked⟩ := stocked.life alive life (by simp [Deed.Stored])
  obtain ⟨twice, again, -⟩ := stocked.insert_stored alive two eased (by
    change once.next.toNat + _ < _
    change once.next.toNat ≤ begun.next.toNat + _ at bound
    rw [one] at bound
    exact Nat.lt_of_le_of_lt (Nat.add_le_add_right bound _) (by decide)) second.1 second.2
  exact ⟨table, _, _, founded, life.inserted second.1 second.2 again⟩

/-- Two entries that are put in in either order come to the same. -/
theorem canonical_two_orders : ∃ (table other : Table UInt32 UInt32) (start session fresh last : Session RamStore),
    Life table start [.inserted 7 8 (.ok true), .inserted 9 10 (.ok true)] session ∧
      Life other fresh [.inserted 9 10 (.ok true), .inserted 7 8 (.ok true)] last ∧
      Alike table session.pages other last.pages := by
  obtain ⟨table, start, session, founded, life⟩ := exists_stored (7, 8) (9, 10)
  obtain ⟨other, fresh, last, refounded, again⟩ := exists_stored (9, 10) (7, 8)
  exact ⟨table, other, start, session, fresh, last, life, again, (life.canonical founded (by simp [Deed.Stored])
    refounded again (by simp [Deed.Tried]) (.swap ..)).2⟩

end Table

end PagedIndex
