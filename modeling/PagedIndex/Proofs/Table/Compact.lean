import Mathlib
import PagedIndex.Proofs.Table.WellFormed

/-!
# Directories that shrink as far as they can

Two halves of a bucket that was split are never both empty, and a directory is never deeper than its deepest
bucket: whatever order entries were put in and taken out, a directory without entries is back to one bucket.
-/

namespace PagedIndex

namespace Table

open DirectoryState

section Depths

variable {K V : Type} {hash : K → UInt32} {state last : DirectoryState} {entries list : List (K × V)} {key : UInt32}
  {slot most : Nat}

/-- Two halves have an entry between them, unless one of them is the bucket of a given slot. -/
def MixedBut (hash : K → UInt32) (state : DirectoryState) (spared : Nat) (entries : List (K × V)) : Prop :=
  ∀ slot < state.size, ∀ depth, state.depth slot = depth + 1 → state.depth (slot ^^^ 2 ^ depth) = depth + 1 →
    0 < load hash depth slot entries ∨ state.depth spared = depth + 1 ∧ spared % 2 ^ depth = slot % 2 ^ depth

/-- Two halves of a bucket that was split have an entry between them. -/
def Mixed (hash : K → UInt32) (state : DirectoryState) (entries : List (K × V)) : Prop :=
  ∀ slot < state.size, ∀ depth, state.depth slot = depth + 1 → state.depth (slot ^^^ 2 ^ depth) = depth + 1 →
    0 < load hash depth slot entries

/-- A directory is no deeper than its deepest bucket, and no two halves of a bucket are both empty. -/
structure Compact (hash : K → UInt32) (state : DirectoryState) (entries : List (K × V)) : Prop where
  least : ¬ state.CanHalve
  mixed : Mixed hash state entries

theorem compact_flat (flat : state.globalDepth = 0) (depth : state.depth 0 = 0) (entries : List (K × V)) :
    Compact hash state entries where
  least can := by
    have deep := can.1
    omega
  mixed slot small _ deep := by
    rw [size, flat] at small
    obtain rfl : slot = 0 := by omega
    omega

theorem Compact.sublist (compact : Compact hash state entries) (part : entries.Sublist list) :
    Compact hash state list :=
  ⟨compact.least, fun slot small depth deep image =>
    Nat.lt_of_lt_of_le (compact.mixed slot small depth deep image) (load_sublist part depth slot)⟩

/-! ### Insertions -/

theorem Compact.deepens (compact : Compact hash state entries) (formed : state.Formed)
    (some_entry : 0 < crowd hash (state.reach key) key entries) (deepens : state.Deepens key last) :
    Compact hash last entries where
  least can := by
    have deeper := deepens.globalDepth
    have within := formed.reach_le_global key
    by_cases full : state.globalDepth ≤ state.reach key
    · -- The bucket that was split is as deep as the directory.
      have less : last.reach key < last.globalDepth := can.2 _ (last.slot_lt key)
      rw [deepens.reach] at less
      omega
    · -- Some other bucket was as deep as the directory before, and is so still.
      have same_size : last.size = state.size := by
        rw [size, size, deeper]
        congr 1
        omega
      refine compact.least ⟨by omega, fun slot small => ?_⟩
      have less := can.2 slot (by omega)
      rw [deepens.depth slot (by omega), Nat.mod_eq_of_lt small] at less
      split at less
      · rename_i here
        rw [formed.depth_congr (state.slot_lt key) small (by
          rw [← DirectoryState.reach, mod_size_mod within, here])]
        change state.reach key < state.globalDepth
        omega
      · omega
  -- Two halves in the later directory are those of the split, or they were halves before, in the slots that the
  -- earlier directory had for them.
  mixed slot small depth deep image := by
    have deeper := deepens.globalDepth
    have above : last.depth slot ≤ last.globalDepth := by
      have old := formed.depth_le _ (Nat.mod_lt slot state.size_pos)
      rw [deepens.depth slot small, deeper]
      split <;> omega
    have little := image_lt small (by omega : depth < last.globalDepth)
    rw [deepens.depth slot small] at deep
    rw [deepens.depth _ little] at image
    split at deep
    · rename_i here
      obtain rfl : state.reach key = depth := by omega
      exact (load_congr here.symm entries) ▸ some_entry
    · rename_i apart
      split at image
      · rename_i here
        obtain rfl : state.reach key = depth := by omega
        rw [xor_mod] at here
        exact absurd here apart
      · have less := Nat.mod_lt slot state.size_pos
        have deep_old := formed.depth_le _ less
        rw [xor_mod_size (by omega : depth < state.globalDepth)] at image
        rw [load_congr (mod_size_mod (by omega : depth ≤ state.globalDepth) slot).symm]
        exact compact.mixed _ less depth deep image

theorem Grows.compact {inserted : Bool} (grows : Grows hash most key entries state inserted last)
    (formed : state.Formed) (positive : 0 < most) (compact : Compact hash state entries) :
    Compact hash last entries := by
  induction grows with
  | @first state page flat =>
    have still_flat : ((state.setBucket 0 page).setDepth 0 0).globalDepth = 0 := flat
    exact compact_flat still_flat (by simp [setDepth]) entries
  | put => exact compact
  | refused => exact compact
  | split formed_middle full deepens rest ih =>
    exact ih formed_middle (compact.deepens formed (by omega) deepens)

/-! ### Removals -/

/-- Only the bucket that entries were taken out of may be empty beside an empty one. -/
theorem Compact.thinned (compact : Compact hash state entries) (formed : state.Formed)
    (near : ∀ entry ∈ entries, entry ∉ list → state.home (hash entry.1) = state.home key) :
    MixedBut hash state (key.toNat % state.size) list := by
  intro slot small depth deep image
  obtain ⟨entry, member, agrees⟩ := load_pos.mp (compact.mixed slot small depth deep image)
  by_cases stays : entry ∈ list
  · exact .inl (load_pos.mpr ⟨entry, stays, agrees⟩)
  · have below := formed.depth_le slot small
    have less := state.slot_lt (hash entry.1)
    have low : (hash entry.1).toNat % state.size % 2 ^ depth = slot % 2 ^ depth := by
      rw [mod_size_mod (by omega), agrees]
    have here := formed.depth_half small deep image less low
    have home := near entry member stays
    have reach : state.depth (key.toNat % state.size) = depth + 1 := by
      rw [← here]
      exact (formed.depth_eq _ less _ (state.slot_lt key) home).symm
    have same := (formed.share_iff _ less _ (state.slot_lt key)).mp home
    rw [here] at same
    exact .inr ⟨reach, (mod_of_mod_le (Nat.le_succ depth) same).symm.trans low⟩

theorem MixedBut.joins {spared depth : Nat} (mixed : MixedBut hash state spared entries) (formed : state.Formed)
    (small : spared < state.size) (joins : state.Joins spared depth last) :
    MixedBut hash last (spared % 2 ^ depth) entries := by
  have same_size : last.size = state.size := by rw [size, joins.globalDepth, size]
  have joined : last.depth (spared % 2 ^ depth) = depth := by
    rw [joins.depth _ (Nat.lt_of_le_of_lt (Nat.mod_le _ _) small), if_pos (Nat.mod_mod _ _)]
  intro slot little e deep image
  rw [same_size] at little
  rw [joined]
  by_cases here : slot % 2 ^ depth = spared % 2 ^ depth
  · -- The slot is in the united bucket itself.
    rw [joins.depth slot little, if_pos here] at deep
    refine .inr ⟨deep, ?_⟩
    rw [← here]
    exact Nat.mod_mod_of_dvd _ (Nat.pow_dvd_pow 2 (by omega))
  · rw [joins.depth slot little, if_neg here] at deep
    have below := formed.depth_le slot little
    rw [joins.depth _ (image_lt little (by omega))] at image
    split at image
    · -- Its other half is.
      rename_i there
      refine .inr ⟨image, ?_⟩
      have low := mod_of_mod_le (by omega : e ≤ depth) there
      rw [xor_mod] at low
      rw [Nat.mod_mod_of_dvd _ (Nat.pow_dvd_pow 2 (by omega)), low]
    · refine (mixed slot little e deep image).imp_right fun both => ?_
      obtain ⟨same, low⟩ := both
      rw [joins.deep] at same
      obtain rfl : depth = e := by omega
      exact absurd low.symm here

/-- Once the last bucket has no empty half beside it, no bucket is to be spared any more. -/
theorem Unites.mixed (unites : Unites hash entries state slot last) (formed : state.Formed) (small : slot < state.size)
    (mixed : MixedBut hash state slot entries) : last.Formed ∧ Mixed hash last entries := by
  induction unites with
  | stuck settled =>
    refine ⟨formed, ?_⟩
    intro other little depth deep image
    rcases mixed other little depth deep image with done | ⟨same, low⟩
    · exact done
    · have below := formed.depth_le other little
      rw [← load_congr low]
      refine settled depth same ?_
      refine formed.depth_half little deep image (image_lt small (by omega)) ?_
      rw [xor_mod, low]
  | @united state next last slot depth formed_next joins rest ih =>
    have less : slot % 2 ^ depth < next.size := by
      rw [size, joins.globalDepth]
      exact Nat.lt_of_le_of_lt (Nat.mod_le _ _) small
    exact ih formed_next less (mixed.joins formed small joins)

theorem shrinks_mixed (shrinks : Directory.Shrinks state last) (formed : state.Formed)
    (mixed : Mixed hash state entries) : Mixed hash last entries := by
  induction shrinks with
  | done => exact mixed
  | halved can rest ih =>
    refine ih (formed.halve can) fun slot small depth deep image => ?_
    have whole := size_halve can.1
    have below := (formed.halve can).depth_le slot small
    rw [(halve_slot can.1 (image_lt small (by omega))).2] at image
    rw [(halve_slot can.1 small).2] at deep
    exact mixed slot (by omega) depth deep image

theorem Sheds.compact (sheds : Sheds hash key entries list state last) (formed : state.Formed)
    (compact : Compact hash state entries) : Compact hash last list := by
  cases sheds with
  | kept same =>
    rw [same]
    exact compact
  | thinned near left =>
    refine ⟨compact.least, fun slot small depth deep image => ?_⟩
    rcases compact.thinned formed near slot small depth deep image with done | ⟨reach, low⟩
    · exact done
    · -- What is left in the bucket of the key is in one of the two halves.
      have deeper : depth < state.globalDepth := by
        have below := formed.depth_le slot small
        omega
      rw [← load_congr low, load_congr (mod_size_mod (Nat.le_of_lt deeper) key.toNat)]
      refine Nat.lt_of_lt_of_le left (load_anti ?_ key.toNat list)
      change depth ≤ state.depth (key.toNat % state.size)
      omega
  | emptied near unites shrinks least =>
    obtain ⟨formed_middle, mixed⟩ := unites.mixed formed (state.slot_lt key) (compact.thinned formed near)
    exact ⟨least, shrinks_mixed shrinks formed_middle mixed⟩

theorem Compact.flat (compact : Compact hash state ([] : List (K × V))) (formed : state.Formed) :
    state.globalDepth = 0 := by
  by_contra deep
  obtain ⟨slot, small, full⟩ := formed.deepest compact.least
  obtain ⟨depth, above⟩ := Nat.exists_eq_succ_of_ne_zero deep
  -- The other half of a deepest bucket is as deep, and there is no entry that either of them could have.
  have less := image_lt small (by omega : depth < state.globalDepth)
  have image : state.depth (slot ^^^ 2 ^ depth) = depth + 1 := by
    have below := formed.depth_le _ less
    by_contra shallow
    have same := mod_of_mod_le (by omega : state.depth (slot ^^^ 2 ^ depth) ≤ depth) (xor_mod slot depth)
    have shared := formed.depth_congr less small same
    omega
  exact absurd (compact.mixed slot small depth (by omega) image) (by simp [load])

end Depths

/-! ### Tables -/

variable {K V σ : Type} [FixedWidth K] [FixedWidth V] {table : Table K V} {pages after : Pages}
  {entries list : List (K × V)} {key : K} {value : V}

def Trim (table : Table K V) (pages : Pages) (entries : List (K × V)) : Prop :=
  ∀ slot < table.breadth pages,
    Compact table.hash (table.shape pages slot) (routed table.hash (table.route pages) slot entries)

omit [FixedWidth K] [FixedWidth V] in
theorem Bare.trim {depth : Nat} (bare : Bare table depth pages) : Trim table pages entries := by
  intro slot small
  rw [shape_of_invalid (bare.vacant slot small)]
  exact compact_flat rfl rfl _

theorem Grown.trim {inserted : Bool} (grown : Grown table entries (table.hash key) inserted pages after)
    (stores : Stores table pages entries) (keeps : Keeps table pages after) (trim : Trim table pages entries) :
    Trim table after (if inserted then entries ++ [(key, value)] else entries) := by
  intro slot small
  rw [keeps.breadth] at small
  rw [keeps.route]
  have more : entries.Sublist (if inserted then entries ++ [(key, value)] else entries) := by
    cases inserted
    · exact .refl _
    · exact List.sublist_append_left _ _
  have here := trim slot small
  have compact : Compact table.hash (table.shape after slot) (routed table.hash (table.route pages) slot entries) := by
    by_cases same : table.route pages (table.hash key) = slot
    · subst same
      exact grown.grows.compact (stores.shape_formed small) (stores.sizeLimit_pos _) here
    · rwa [grown.elsewhere.shape small same]
  exact compact.sublist (more.filter _)

theorem Lessened.trim (lessened : Lessened table entries list (table.hash key) pages after)
    (stores : Stores table pages entries) (keeps : Keeps table pages after) (trim : Trim table pages entries) :
    Trim table after list := by
  intro slot small
  rw [keeps.breadth] at small
  rw [keeps.route]
  by_cases same : table.route pages (table.hash key) = slot
  · subst same
    exact lessened.sheds.compact (stores.shape_formed small) (trim _ small)
  · rw [lessened.elsewhere.shape small same, lessened.others slot same]
    exact trim slot small

omit [FixedWidth K] [FixedWidth V] in
theorem Trim.congr (trim : Trim table pages entries)
    (same : ∀ page, Owns table pages page → after.content page = pages.content page) : Trim table after entries := by
  obtain ⟨branches, breadths, routing⟩ := outline_congr (same table.header (.inl rfl))
  intro slot small
  rw [breadths] at small
  rw [routing, shape_congr (by rw [branches]) fun valid => same _ (.inr ⟨slot, small, valid, .inl rfl⟩)]
  exact trim slot small

namespace Deed

def Failed : Deed K V → Prop
  | inserted _ _ (.error _) | found _ (.error _) | removed _ (.error _) => True
  | _ => False

end Deed

variable [BackingStore σ] [PageKeeper σ] [RoundTrips K] [RoundTrips V] {start session : Session σ}
  {deeds : List (Deed K V)}

theorem Life.trim (life : Life table start deeds session) (alive : Alive table start entries)
    (trim : Trim table start.pages entries) (whole : ∀ deed ∈ deeds, ¬ deed.Failed) :
    ∃ list, Alive table session list ∧ Trim table session.pages list := by
  -- Induction on the run: one lemma for what each kind of move makes of directories that are compact.
  induction life with
  | begun => exact ⟨entries, alive, trim⟩
  | @inserted deeds session pool before key value answer done ih =>
    obtain ⟨list, alive, trim⟩ := ih fun deed member => whole deed (List.mem_append_left _ member)
    match answer with
    | .ok something =>
      obtain ⟨still, keeps, _⟩ := alive.inserted done
      exact ⟨_, by simpa using still, (alive.grown done).trim alive.stores keeps trim⟩
    | .error error => exact absurd trivial (whole (.inserted key value (.error error)) (by simp))
  | @found deeds session pool before key answer done ih =>
    obtain ⟨list, alive, trim⟩ := ih fun deed member => whole deed (List.mem_append_left _ member)
    refine ⟨list, (alive.found done).1, ?_⟩
    exact trim.congr (alive.found_same done)
  | @removed deeds session pool before key answer done ih =>
    obtain ⟨list, alive, trim⟩ := ih fun deed member => whole deed (List.mem_append_left _ member)
    match answer with
    | .ok something =>
      obtain ⟨left, still, keeps, lessened⟩ := alive.lessened done
      exact ⟨left, still, lessened.trim alive.stores keeps trim⟩
    | .error error => exact absurd trivial (whole (.removed key (.error error)) (by simp))
  | outside before step spares ih =>
    obtain ⟨list, alive, trim⟩ := ih whole
    exact ⟨list, (alive.outside step spares).1, trim.congr (alive.spared step spares)⟩

omit [RoundTrips K] [RoundTrips V] in
theorem Created.trim (created : Created table start) : Trim table start.pages [] := by
  obtain ⟨run, _, _, _, _, done⟩ := created
  exact (made_alive run done).2.2.trim

/-! ### What the pages say -/

def Barren (K V : Type) [FixedWidth K] [FixedWidth V] (pages : Pages) (bucket : PageId) : Prop :=
  Bucket.entries (⟨pages.content bucket⟩ : Bucket K V pageSize) = .ok []

/-- A directory page has shrunk as far as it can. -/
structure Shrunk (K V : Type) [FixedWidth K] [FixedWidth V] (pages : Pages) (directory : PageId)
    (state : DirectoryState) : Prop where
  depth_le : ∀ slot < state.size, state.depth slot ≤ state.globalDepth
  deepest : ∃ slot < state.size, state.depth slot = state.globalDepth
  canHalve : Directory.canHalve ⟨pages.content directory⟩ = .ok false
  buddies : ∀ slot < state.size, ∀ depth, state.depth slot = depth + 1 → state.depth (slot ^^^ 2 ^ depth) = depth + 1 →
    ¬ (Barren K V pages (state.bucket slot) ∧ Barren K V pages (state.bucket (slot ^^^ 2 ^ depth)))
  empty : (∀ slot < state.size, (state.bucket slot).isValid = true → Barren K V pages (state.bucket slot)) →
    state.globalDepth = 0 ∧ state.size = 1

omit [BackingStore σ] [PageKeeper σ] [RoundTrips K] [RoundTrips V] in
theorem Houses.not_barren {hash : K → UInt32} {directory : PageId} {state : DirectoryState} {limit : Nat}
    (houses : Houses hash pages directory state limit entries) {entry : K × V} (member : entry ∈ entries) :
    ¬ Barren K V pages (state.home (hash entry.1)) := by
  intro barren
  have holds := houses.shelves.holds _ (mentions_home (houses.home_valid member))
  have here : entry ∈ routed hash state.home (state.home (hash entry.1)) entries :=
    List.mem_filter.mpr ⟨member, decide_eq_true rfl⟩
  rw [Barren, holds.entries_ok] at barren
  rw [Except.ok.inj barren] at here
  cases here

omit [BackingStore σ] [PageKeeper σ] [RoundTrips K] [RoundTrips V] in
/-- A table without entries holds no other list. -/
theorem Stores.eq_nil (stores : Stores table pages entries) (bare : Stores table pages []) : entries = [] := by
  refine List.eq_nil_iff_forall_not_mem.mpr fun entry member => ?_
  obtain ⟨valid, here, state, limit, houses, full⟩ := stores.housed member
  obtain ⟨other, _, empty⟩ := bare.rooted valid
  obtain rfl : other = state := empty.denotes.state_eq.symm.trans houses.denotes.state_eq
  exact houses.not_barren here (empty.shelves.holds _ (mentions_home full)).entries_ok

omit [BackingStore σ] [PageKeeper σ] [RoundTrips K] [RoundTrips V] in
theorem Houses.shrunk {hash : K → UInt32} {directory : PageId} {state : DirectoryState} {limit : Nat}
    (houses : Houses hash pages directory state limit entries) (compact : Compact hash state entries) :
    Shrunk K V pages directory state where
  depth_le := houses.shelves.formed.depth_le
  deepest := houses.shelves.formed.deepest compact.least
  canHalve := by
    obtain ⟨answer, asked, can⟩ := houses.denotes.canHalve houses.shallow
    cases answer with
    | false => exact asked
    | true => exact absurd (can.mp rfl) compact.least
  buddies slot small depth deep image both := by
    have formed := houses.shelves.formed
    have below := formed.depth_le slot small
    have less := image_lt small (by omega : depth < state.globalDepth)
    obtain ⟨entry, member, low⟩ := load_pos.mp (compact.mixed slot small depth deep image)
    have full := houses.not_barren member
    rcases xor_mod_succ slot depth low with same | same
    · rw [(formed.home_eq_iff small _).mpr (by rw [deep, same])] at full
      exact full both.1
    · rw [(formed.home_eq_iff less _).mpr (by rw [image, same])] at full
      exact full both.2
  empty barren := by
    have nothing : entries = [] := by
      refine List.eq_nil_iff_forall_not_mem.mpr fun entry member => ?_
      exact houses.not_barren member (barren _ (state.slot_lt _) (houses.home_valid member))
    subst nothing
    have flat := compact.flat houses.shelves.formed
    exact ⟨flat, by rw [size, flat, Nat.pow_zero]⟩

/-- As long as no call fails, every directory of a table has shrunk as far as it can: the buckets that splits have
left empty are all picked up in the end, and a directory without entries is back to one bucket. -/
theorem Life.fully_shrunk (created : Created table start) (life : Life table start deeds session)
    (whole : ∀ deed ∈ deeds, ¬ deed.Failed) : ∀ slot < table.breadth session.pages,
      (table.branch session.pages slot).isValid = true →
      Shrunk K V session.pages (table.branch session.pages slot) (table.layout session.pages slot) := by
  intro slot small valid
  obtain ⟨list, alive, trim⟩ := life.trim created.alive created.trim whole
  obtain ⟨state, limit, houses⟩ := alive.stores.houses slot small valid
  have compact := trim slot small
  rw [shape_of_valid valid, houses.denotes.state_eq] at compact
  rw [layout, houses.denotes.state_eq]
  exact houses.shrunk compact

/-- A directory that was split is back to one bucket when both entries are taken out. -/
theorem fully_shrunk_emptied : ∃ (table : Table UInt32 UInt32) (start middle session : Session RamStore),
    Life table start [.inserted 0 10 (.ok true), .inserted 1 11 (.ok true)] middle ∧
      table.leaf middle.pages 0 ≠ table.leaf middle.pages 1 ∧
      Life table middle [.removed 1 (.ok true), .removed 0 (.ok true)] session ∧
      (table.branch session.pages 0).isValid = true ∧ (table.layout session.pages 0).globalDepth = 0 := by
  obtain ⟨table, start, middle, created, life, paired⟩ := exists_split_life
  have agrees := paired.agrees
  obtain ⟨_, first, living, eased⟩ := paired.alive.remove_answered paired.eased agrees 1
  obtain ⟨last, second, living, -⟩ := living.remove_answered eased agrees 0
  rw [paired.compares] at first second living
  have emptied := (Life.begun.removed 1 first).removed 0 second
  have whole := (life.removed 1 first).removed 0 second
  -- The directory is the one that was there before.
  obtain ⟨_, -, keeps⟩ := emptied.alive paired.alive
  have small : 0 < table.breadth middle.pages := by
    rw [paired.single.breadth]
    exact Nat.one_pos
  have valid := paired.single.listed paired.alive.stores List.mem_cons_self
  have stays := keeps.branch 0 small valid
  rw [← keeps.breadth] at small
  rw [← stays] at valid
  obtain ⟨state, limit, houses⟩ := living.stores.houses 0 small valid
  have shrunk := whole.fully_shrunk created (by simp [Deed.Failed]) 0 small valid
  refine ⟨table, start, middle, _, life, paired.apart, emptied, valid, (shrunk.empty fun slot little full => ?_).1⟩
  rw [layout, houses.denotes.state_eq] at little full ⊢
  exact (houses.shelves.holds _ ⟨full, slot, little, rfl⟩).entries_ok

end Table

end PagedIndex
