import Mathlib
import PagedIndex.Proofs.Pool.Allocation
import PagedIndex.Proofs.Pool.Calls
import PagedIndex.Proofs.Pool.Memory

/-!
# Pools with few frames

If it is known how many frames a pool has besides those of its clients, it is known where an operation stops: it gets
every page while it has pinned fewer pages than there are such frames, and none when it has pinned as many.
-/

namespace PagedIndex.Pool

variable {σ α β : Type} [BackingStore σ] {leases : List Lease} {count : Nat} {pool later : Pool σ} {page : PageId}
  {id : FrameId} {memory next last : Memory} {answer : Except Error α}

theorem Claimed.size (claimed : Claimed pool (.ok id later)) : later.frames.size = pool.frames.size := by
  cases claimed with
  | free => rfl
  | clean => exact Array.size_setIfInBounds ..
  | saved => simp [Pool.evicted, Pool.vacate, Pool.saved, Pool.place]

theorem Fetched.size (fetched : Fetched pool page (.ok id later)) : later.frames.size = pool.frames.size := by
  cases fetched with
  | hit => exact Array.size_setIfInBounds ..
  | loaded known absent claimed => exact (Array.size_setIfInBounds ..).trans claimed.size

/-- A pool that offers so many frames and no more. -/
structure Snug (leases : List Lease) (count : Nat) (pool : Pool σ) : Prop extends Offers leases count pool where
  most : pool.frames.size ≤ (lent leases).card + count

theorem Snug.of_same (snug : Snug leases count pool) (disk : later.disk = pool.disk)
    (size : later.frames.size = pool.frames.size) : Snug leases count later :=
  ⟨snug.toOffers.of_same disk size, by rw [size]; exact snug.most⟩

variable [PageKeeper σ]

/-- The action comes to this answer in every pool that shows the memory and offers just so many frames. -/
def Comes (leases : List Lease) (count : Nat) (action : Action σ α) (memory : Memory) (answer : Except Error α)
    (next : Memory) : Prop :=
  ∀ pool, Models leases False memory pool → Snug leases count pool →
    ∃ later, Answers action pool answer later ∧ Models leases False next later ∧ Snug leases count later

/-! ### Composing -/

theorem Gives.comes {action : Action σ α} {found : α} (gives : Gives leases action memory found next) :
    Comes leases count action memory (.ok found) next := by
  intro pool models snug
  obtain ⟨later, done, -, ends, modest⟩ := gives False pool models
  exact ⟨later, done, ends, snug.of_same modest.disk modest.size⟩

theorem Comes.step {action : Action σ β} {rest : β → Action σ α} {found : β}
    (first : Comes leases count action memory (.ok found) next)
    (second : Comes leases count (rest found) next answer last) :
    Comes leases count (action >>= rest) memory answer last := by
  intro pool models snug
  obtain ⟨middle, done, models, snug⟩ := first pool models snug
  obtain ⟨later, ends, models, snug⟩ := second middle models snug
  refine ⟨later, ?_, models, snug⟩
  cases answer <;> exact (bind_ok done).trans ends

/-- Nothing follows an error. -/
theorem Comes.stop {action : Action σ β} {rest : β → Action σ α} {error : Error}
    (first : Comes leases count action memory (.error error) next) :
    Comes leases count (action >>= rest) memory (.error error) next := by
  intro pool models snug
  obtain ⟨later, failed, models, snug⟩ := first pool models snug
  exact ⟨later, bind_error failed, models, snug⟩

theorem Comes.keeping {action : Action σ α} (next : Memory) (gain : Multiset PageId)
    (inner : Comes leases count action memory answer next) (held : next.pins = page ::ₘ gain) :
    Comes leases count (Pool.keeping page action) memory answer { next with pins := gain } := by
  intro pool models snug
  obtain ⟨middle, ends, models, snug⟩ := inner pool models snug
  obtain ⟨later, unpinned, models, modest⟩ := models.unpin held
  refine ⟨later, ?_, models, snug.of_same modest.disk modest.size⟩
  cases answer with
  | ok value => exact keeping_ok ends unpinned
  | error error => exact keeping_error ends unpinned

theorem Comes.entrusting {action : Action σ α} {found : α} (inner : Comes leases count action memory (.ok found) next) :
    Comes leases count (Pool.entrusting page action) memory (.ok found) next := by
  intro pool models snug
  obtain ⟨later, done, ends⟩ := inner pool models snug
  exact ⟨later, entrusting_ok done, ends⟩

theorem Comes.entrusting_error {action : Action σ α} {error : Error} (gain : Multiset PageId)
    (inner : Comes leases count action memory (.error error) next) (held : next.pins = page ::ₘ gain) :
    Comes leases count (Pool.entrusting page action) memory (.error error) { next with pins := gain } := by
  intro pool models snug
  obtain ⟨middle, failed, models, snug⟩ := inner pool models snug
  obtain ⟨later, unpinned, models, modest⟩ := models.unpin held
  exact ⟨later, Pool.entrusting_error failed unpinned, models, snug.of_same modest.disk modest.size⟩

/-! ### Pages -/

theorem Comes.fetch {rest : FrameId → Action σ α} (issued : page.number < memory.next) (few : memory.pins.card < count)
    (unpinned : page ∉ memory.pins) (written : memory.content page ≠ Page.zero)
    (second : ∀ id, Comes leases count (rest id) (memory.pin page) answer last) :
    Comes leases count (Pool.fetch page >>= rest) memory answer last := by
  intro pool models snug
  have known : page.number < pool.next := by
    rw [models.next]
    exact issued
  have fetched := models.sound.coherent.kept.fetch page
  obtain ⟨id, middle, done, offers⟩ :=
    snug.toOffers.fetched models.sound few unpinned (issued_isValid issued) known fetched
  rw [done] at fetched
  obtain ⟨middle_snug⟩ : Nonempty (Snug leases count middle) := ⟨offers, by rw [fetched.size]; exact snug.most⟩
  obtain ⟨later, ends, models, snug⟩ := second id middle (models.fetched fetched written False.elim) middle_snug
  refine ⟨later, ?_, models, snug⟩
  cases answer <;> exact (bind_ok done).trans ends

/-! ### No frame left -/

/-- What an operation has pinned uses up the frames that are offered. -/
structure Spent (leases : List Lease) (count : Nat) (memory : Memory) : Prop where
  own : ∀ page ∈ memory.pins, leased leases page = 0
  many : count ≤ memory.pins.toFinset.card

/-- The clients and the operation, on pages of its own, have as many pages pinned as there are frames. -/
theorem Snug.crowded (snug : Snug leases count pool) (models : Models leases False memory pool)
    (spent : Spent leases count memory) : pool.Crowded := by
  have sound := models.sound
  let held := lent leases ∪ memory.pins.toFinset
  have pinned : ∀ page ∈ held, 0 < leased leases page + memory.pins.count page := fun page member => by
    rcases Finset.mem_union.mp member with lent | mine
    · exact Nat.add_pos_left (leased_of_lent lent) _
    · exact Nat.add_pos_right _ (Multiset.count_pos.mpr (Multiset.mem_toFinset.mp mine))
  have resident : held ⊆ pool.residents.keys.toFinset := fun page member => by
    obtain ⟨id, _, _, seat, -⟩ := sound.seat page (pinned page member)
    exact List.mem_toFinset.mpr ((listed_iff (.refl _)).mpr ⟨id, seat.resident⟩)
  have apart : Disjoint (lent leases) memory.pins.toFinset := Finset.disjoint_left.mpr fun page lent mine => by
    have some_lease := leased_of_lent lent
    rw [spent.own page (Multiset.mem_toFinset.mp mine)] at some_lease
    cases some_lease
  have cards : held.card = (lent leases).card + memory.pins.toFinset.card := Finset.card_union_of_disjoint apart
  have most := snug.most
  have many := spent.many
  have rooms : pool.free.length + pool.residents.keys.length = pool.frames.size := by
    simpa [← Std.TreeMap.map_fst_toList_eq_keys] using sound.coherent.kept.frames_perm.length_eq
  have distinct := List.toFinset_card_of_nodup pool.residents.nodup_keys
  have same : held = pool.residents.keys.toFinset := Finset.eq_of_subset_of_card_le resident (by omega)
  have full : pool.free = [] := by
    refine List.eq_nil_of_length_eq_zero ?_
    rw [← same, cards] at distinct
    omega
  intro i small
  rcases sound.coherent.kept.covered i small with idle | ⟨page, there⟩
  · rw [full] at idle
    cases idle
  · obtain ⟨frame, _, seat⟩ := sound.coherent.kept.seat there
    have member : page ∈ held := same ▸ List.mem_toFinset.mpr ((listed_iff (.refl _)).mpr ⟨_, there⟩)
    refine ⟨frame, page, seat.frame_at, seat.holds, ?_⟩
    rw [← seat.pinsOf, sound.pins]
    exact pinned page member

theorem Comes.fetch_refused (spent : Spent leases count memory) (issued : page.number < memory.next)
    (unpinned : page ∉ memory.pins) (unlent : leased leases page = 0) :
    Comes leases count (Pool.fetch page : Action σ FrameId) memory (.error .noFreeFrames) memory := by
  intro pool models snug
  have kept := models.sound.coherent.kept
  have crowded := snug.crowded models spent
  have known : page.isValid = true ∧ page.number < pool.next :=
    ⟨issued_isValid issued, by rw [models.next]; exact issued⟩
  have absent : pool.contains page = false := by
    by_contra present
    obtain ⟨id, resident⟩ := contains_iff.mp (by simpa using present)
    obtain ⟨frame, history, seat⟩ := kept.seat resident
    have pinned := crowded.pinned seat
    rw [← seat.pinsOf, models.sound.pins, unlent, Multiset.count_eq_zero.mpr unpinned] at pinned
    cases pinned
  have fetched := kept.fetch page
  have refused := fetched.of_crowded kept crowded known absent
  rw [refused] at fetched
  obtain ⟨quiet, next⟩ := fetched.quiet_error models.sound.coherent
  exact ⟨_, refused, models.calm quiet next False.elim, snug.of_same rfl rfl⟩

theorem Comes.new_refused (spent : Spent leases count memory) :
    Comes leases count (Pool.new : Action σ (PageId × FrameId)) memory (.error .noFreeFrames) memory := by
  intro pool models snug
  have kept := models.sound.coherent.kept
  exact ⟨pool, kept.new.of_crowded kept (snug.crowded models spent), models, snug⟩

end PagedIndex.Pool
