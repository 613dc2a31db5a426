import Mathlib
import PagedIndex.Proofs.Pool.Flushing
import PagedIndex.Proofs.Pool.Ledger
import PagedIndex.Proofs.Store.Reliable

/-!
# Pools at ease

A pool offers frames if its store answers and so many of them are out of its clients' hands. An operation that never
pins more pages than that at a time gets every frame and every page that it asks for. With three frames the pool is at
ease.
-/

namespace PagedIndex.Pool

variable {σ : Type} [BackingStore σ] {leases : List Lease} {pool later : Pool σ} {pins : Multiset PageId}
  {page : PageId} {id : FrameId} {count : Nat}

def lent (leases : List Lease) : Finset PageId := (leases.map Lease.page).toFinset

theorem mem_lent (lent_page : 0 < leased leases page) : page ∈ lent leases := by
  obtain ⟨lease, member, same⟩ := List.countP_pos_iff.mp lent_page
  exact List.mem_toFinset.mpr (List.mem_map.mpr ⟨lease, member, by simpa using same⟩)

theorem leased_of_lent (lent : page ∈ lent leases) : 0 < leased leases page := by
  obtain ⟨lease, member, same⟩ := List.mem_map.mp (List.mem_toFinset.mp lent)
  exact List.countP_pos_iff.mpr ⟨lease, member, by simpa using same⟩

/-- The store answers, so many frames hold no page that clients have pinned, and no pin count is at its last number. -/
structure Offers (leases : List Lease) (count : Nat) (pool : Pool σ) : Prop where
  reliable : pool.disk.Reliable
  spare : (lent leases).card + count ≤ pool.frames.size
  room : ∀ page, leased leases page + 1 < wordBound

/-- A pool that offers as many frames as an operation on a table needs. -/
abbrev Eased (leases : List Lease) (pool : Pool σ) : Prop := Offers leases 3 pool

theorem Offers.of_same (offers : Offers leases count pool) (disk : later.disk = pool.disk)
    (size : later.frames.size = pool.frames.size) : Offers leases count later :=
  ⟨by rw [disk]; exact offers.reliable, by rw [size]; exact offers.spare, offers.room⟩

theorem Offers.place (offers : Offers leases count pool) (id : FrameId) (frame : Frame) :
    Offers leases count (pool.place id frame) :=
  offers.of_same rfl (Array.size_setIfInBounds ..)

theorem Offers.served (offers : Offers leases count pool) {wanted : Request} (valid : wanted.page.isValid = true)
    {data : Page} {disk : Worker σ} (served : pool.disk.perform wanted = (.ok data, disk)) :
    Offers leases count { pool with disk } :=
  ⟨offers.reliable.served valid served, offers.spare, offers.room⟩

variable [PageKeeper σ]

/-- Not all frames can be pinned: there are more of them than pages with pins. -/
theorem Offers.victim (offers : Offers leases count pool) (sound : Sound leases (pins.count ·) pool)
    (few : pins.card < count) (full : pool.free = []) : pool.replacer.victim ≠ none := by
  intro fixed
  have kept := sound.coherent.kept
  have idle := LruK.candidates_of_victim_none kept.counted fixed
  rw [kept.candidates_eq, List.countP_eq_zero] at idle
  have size : pool.residents.keys.length = pool.frames.size := by
    have count := kept.frames_perm.length_eq
    simpa [full, ← Std.TreeMap.map_fst_toList_eq_keys] using count
  have pinned : pool.residents.keys.toFinset ⊆ lent leases ∪ pins.toFinset := by
    intro page member
    have held := idle page (List.mem_toFinset.mp member)
    rw [sound.pins, decide_eq_true_eq] at held
    rw [Finset.mem_union, Multiset.mem_toFinset, ← Multiset.count_pos]
    by_cases by_client : 0 < leased leases page
    · exact .inl (mem_lent by_client)
    · exact .inr (by omega)
  have spare := offers.spare
  have here : pins.toFinset.card ≤ pins.card := Multiset.toFinset_card_le pins
  have cards := (Finset.card_le_card pinned).trans (Finset.card_union_le _ _)
  rw [List.toFinset_card_of_nodup pool.residents.nodup_keys, size] at cards
  omega

theorem Offers.claimed (offers : Offers leases count pool) (sound : Sound leases (pins.count ·) pool)
    (few : pins.card < count) {result : Result σ FrameId} (claimed : Claimed pool result) :
    ∃ id later, result = .ok id later ∧ Offers leases count later := by
  cases claimed with
  | free => exact ⟨_, _, rfl, offers.of_same rfl rfl⟩
  | crowded full fixed => exact absurd fixed (offers.victim sound few full)
  | clean => exact ⟨_, _, rfl, offers.of_same rfl (Array.size_setIfInBounds ..)⟩
  | @saved page id frame history data disk full chosen seat unpinned dirty served =>
    have valid : (Request.write page frame.page).page.isValid = true := sound.coherent.kept.isValid seat.resident
    exact ⟨_, _, rfl, (offers.served valid served).of_same rfl (by
      simp [Pool.evicted, Pool.vacate, Pool.saved, Pool.place])⟩
  | @unsaved page id frame history error disk full chosen seat unpinned dirty failed =>
    have valid : (Request.write page frame.page).page.isValid = true := sound.coherent.kept.isValid seat.resident
    exact absurd failed (offers.reliable.not_error valid)

theorem Offers.pins_lt (offers : Offers leases count pool) (sound : Sound leases (pins.count ·) pool)
    (unpinned : page ∉ pins) : pool.pinsOf page + 1 < wordBound := by
  rw [sound.pins, Multiset.count_eq_zero_of_notMem unpinned]
  exact offers.room page

theorem Offers.fetched (offers : Offers leases count pool) (sound : Sound leases (pins.count ·) pool)
    (few : pins.card < count) (unpinned : page ∉ pins) (valid : page.isValid = true) (issued : page.number < pool.next)
    {result : Result σ FrameId} (fetched : Fetched pool page result) :
    ∃ id later, result = .ok id later ∧ Offers leases count later := by
  have missed : Sound leases (pins.count ·) pool.missed := ⟨sound.coherent.missed.1, sound.pins, sound.placed⟩
  have offers_missed : Offers leases count pool.missed := offers.of_same rfl rfl
  have readable : (Request.read page).page.isValid = true := valid
  cases fetched with
  | unknown unknown => exact absurd ⟨valid, issued⟩ unknown
  | hit => exact ⟨_, _, rfl, offers.of_same rfl (Array.size_setIfInBounds ..)⟩
  | full seat full =>
    have room := offers.pins_lt sound unpinned
    rw [seat.pinsOf] at room
    exact absurd room full
  | refused absent claimed =>
    obtain ⟨_, _, same, -⟩ := offers_missed.claimed missed few claimed
    cases same
  | unread absent claimed failed =>
    obtain ⟨_, _, same, still⟩ := offers_missed.claimed missed few claimed
    cases same
    exact absurd failed (still.reliable.not_error readable)
  | loaded known absent claimed idle served =>
    obtain ⟨_, _, same, still⟩ := offers_missed.claimed missed few claimed
    cases same
    exact ⟨_, _, rfl, (still.served readable served).of_same rfl
      (Array.size_setIfInBounds ..)⟩

theorem Offers.made (offers : Offers leases count pool) (sound : Sound leases (pins.count ·) pool)
    (few : pins.card < count) {result : Result σ (PageId × FrameId)} (made : Made pool result) :
    (∃ answer later, result = .ok answer later ∧ Offers leases count later) ∨
      ∃ violation later, result = .error (.violation violation) later ∧ later.next = pool.next ∧
        ¬ pool.next.toNat + 1 < wordBound := by
  cases made with
  | refused claimed =>
    obtain ⟨_, _, same, -⟩ := offers.claimed sound few claimed
    cases same
  | exhausted claimed last => exact .inr ⟨_, _, rfl, claimed.next_eq, last⟩
  | made claimed idle =>
    obtain ⟨_, _, same, still⟩ := offers.claimed sound few claimed
    cases same
    exact .inl ⟨_, _, rfl, still.of_same rfl (Array.size_setIfInBounds ..)⟩

omit [PageKeeper σ] in
theorem Offers.unpinned (offers : Offers leases count pool) {dirty : Bool} {answer : Bool}
    (unpinned : Unpinned pool page dirty (.ok answer later)) : Offers leases count later := by
  cases unpinned with
  | absent => exact offers
  | unpinned => exact offers
  | released => exact offers.of_same rfl (Array.size_setIfInBounds ..)

omit [PageKeeper σ] in
theorem Offers.deleted (offers : Offers leases count pool) {answer : Bool}
    (deleted : Deleted pool page (.ok answer later)) : Offers leases count later := by
  cases deleted with
  | absent => exact offers.of_same rfl rfl
  | pinned => exact offers
  | dropped => exact offers.of_same rfl (Array.size_setIfInBounds ..)

omit [PageKeeper σ] in
theorem Wrote.reliable {pages : List PageId} {disk last : Worker σ} (wrote : Wrote pool disk pages last)
    (reliable : disk.Reliable) (valid : ∀ page ∈ pages, page.isValid = true) : last.Reliable := by
  induction wrote with
  | nothing => exact reliable
  | @page page frame pages data disk next last present served rest ih =>
    have here : (Request.write page frame.page).page.isValid = true := valid page List.mem_cons_self
    have still := reliable.served here served
    exact ih still fun other member => valid other (List.mem_cons_of_mem page member)

theorem Offers.flushAll (offers : Offers leases count pool) (sound : Sound leases (fun _ => 0) pool) :
    ∃ later, flushAll pool = .ok () later ∧ Offers leases count later := by
  have kept := sound.coherent.kept
  have valid : ∀ page ∈ pool.residents.keys, page.isValid = true := fun page member => by
    obtain ⟨id, resident⟩ := (listed_iff (.refl _)).mp member
    exact kept.isValid resident
  have swept := (kept.flush_all (.refl _)).swept
  change Sweep pool pool.residents.keys (Pool.flushAll pool) at swept
  generalize Pool.flushAll pool = result at swept
  cases swept with
  | done wrote unmoved marks =>
    exact ⟨_, rfl, wrote.reliable offers.reliable valid, by rw [unmoved.size]; exact offers.spare, offers.room⟩
  | @stopped before after failing frame disk error later cut wrote present failed =>
    have all : ∀ page ∈ before ++ failing :: after, page.isValid = true := cut ▸ valid
    have reliable := wrote.reliable offers.reliable fun page member => all page (List.mem_append_left _ member)
    have here : (Request.write failing frame.page).page.isValid = true := all failing (by simp)
    exact absurd failed (reliable.not_error here)
  | @full before after failing frame later cut wrote present full =>
    have counted := sound.pins failing
    rw [pinsOf, present] at counted
    rw [show frame.pins = leased leases failing from counted] at full
    exact absurd (offers.room failing) full

/-! ### Answers that are asked for with ease only -/

section Answers

variable {α : Type} {ease : Prop}

omit [PageKeeper σ] in
theorem eased_of_ok {value : α}
    (calm : ease → ∃ answer last, (.ok value later : Result σ α) = .ok answer last ∧ Eased leases last)
    (holds : ease) : Eased leases later := by
  obtain ⟨_, _, same, eased⟩ := calm holds
  cases same
  exact eased

omit [PageKeeper σ] in
theorem hindered_of_error {failure : Failure}
    (calm : ease → ∃ answer last, (.error failure later : Result σ α) = .ok answer last ∧ Eased leases last) :
    ¬ ease := by
  intro holds
  obtain ⟨_, _, same, -⟩ := calm holds
  cases same

end Answers

end PagedIndex.Pool
