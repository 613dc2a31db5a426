import Mathlib
import PagedIndex.Proofs.Table.Shelves

/-!
# How deep a directory goes

What operations make of the depths in a directory: an insertion takes full buckets one bit further, a removal
takes the slots of empty ones back. Which pages the buckets are on has no part in it.
-/

namespace PagedIndex

/-- What agrees with a slot in some low bits agrees in the next one too, or agrees there with the other half. -/
theorem xor_mod_succ (slot depth : Nat) {other : Nat} (low : other % 2 ^ depth = slot % 2 ^ depth) :
    other % 2 ^ (depth + 1) = slot % 2 ^ (depth + 1) ∨
      other % 2 ^ (depth + 1) = (slot ^^^ 2 ^ depth) % 2 ^ (depth + 1) := by
  rw [mod_succ_iff, mod_succ_iff, xor_mod, Nat.testBit_xor, Nat.testBit_two_pow_self]
  cases other.testBit depth <;> cases slot.testBit depth <;> simp [low]

namespace DirectoryState

variable {state : DirectoryState}

theorem Formed.depth_congr (formed : state.Formed) {a b : Nat} (small_a : a < state.size) (small_b : b < state.size)
    (same : a % 2 ^ state.depth a = b % 2 ^ state.depth a) : state.depth b = state.depth a :=
  (formed.depth_eq a small_a b small_b ((formed.share_iff a small_a b small_b).mpr same)).symm

theorem xor_mod_size {slot depth : Nat} (deep : depth < state.globalDepth) :
    (slot ^^^ 2 ^ depth) % state.size = slot % state.size ^^^ 2 ^ depth := by
  have less : 2 ^ depth < 2 ^ state.globalDepth := Nat.pow_lt_pow_right (by decide) deep
  rw [size, Nat.xor_mod_two_pow, Nat.mod_eq_of_lt less]

theorem Formed.depth_half (formed : state.Formed) {slot depth other : Nat} (small : slot < state.size)
    (deep : state.depth slot = depth + 1) (image : state.depth (slot ^^^ 2 ^ depth) = depth + 1)
    (less : other < state.size) (low : other % 2 ^ depth = slot % 2 ^ depth) : state.depth other = depth + 1 := by
  have deeper : depth < state.globalDepth := by
    have below := formed.depth_le slot small
    omega
  rcases xor_mod_succ slot depth low with same | same
  · rw [← deep, formed.depth_congr small less (by rw [deep, same])]
  · rw [← image, formed.depth_congr (image_lt small deeper) less (by rw [image, same])]

theorem Formed.reach_le_global (formed : state.Formed) (key : UInt32) : state.reach key ≤ state.globalDepth :=
  formed.depth_le _ (state.slot_lt key)

/-- The bucket of a hash is split: it uses one bit more, and all others are as deep as before. -/
structure Deepens (state : DirectoryState) (key : UInt32) (last : DirectoryState) : Prop where
  maxDepth : last.maxDepth = state.maxDepth
  globalDepth : last.globalDepth = max state.globalDepth (state.reach key + 1)
  depth : ∀ slot < last.size, last.depth slot =
    if slot % 2 ^ state.reach key = key.toNat % 2 ^ state.reach key then state.reach key + 1
    else state.depth (slot % state.size)

theorem Deepens.reach {last : DirectoryState} {key : UInt32} (deepens : Deepens state key last) :
    last.reach key = state.reach key + 1 := by
  have deep : state.reach key ≤ last.globalDepth := by
    rw [deepens.globalDepth]
    omega
  rw [DirectoryState.reach, deepens.depth _ (last.slot_lt key), if_pos (mod_size_mod deep _)]

/-- Slots that used one bit more are given to one bucket that does not use it. -/
structure Joins (state : DirectoryState) (slot depth : Nat) (last : DirectoryState) : Prop where
  deep : state.depth slot = depth + 1
  globalDepth : last.globalDepth = state.globalDepth
  depth : ∀ other < state.size, last.depth other =
    if other % 2 ^ depth = slot % 2 ^ depth then depth else state.depth other

theorem Formed.joins (formed : state.Formed) {depth x y : Nat} (buddies : state.Buddies depth x y) {slot : Nat}
    (deep : state.depth slot = depth + 1) (low : x % 2 ^ depth = slot % 2 ^ depth) :
    state.Joins slot depth (state.unite (state.bucket x) (state.bucket y) depth) where
  deep := deep
  globalDepth := rfl
  depth other small := by
    rw [(unite_slot _ _ _ small).2]
    simp only [formed.half_iff buddies small, low, eq_comm (b := other % 2 ^ depth)]

end DirectoryState

namespace Table

open DirectoryState

variable {K V : Type} {hash : K → UInt32} {state last : DirectoryState} {entries list : List (K × V)} {key : UInt32}
  {depth slot most : Nat}

/-- How many entries agree with a slot in its low bits. -/
def load (hash : K → UInt32) (depth slot : Nat) (entries : List (K × V)) : Nat :=
  entries.countP fun entry => (hash entry.1).toNat % 2 ^ depth = slot % 2 ^ depth

theorem load_pos : 0 < load hash depth slot entries ↔
    ∃ entry ∈ entries, (hash entry.1).toNat % 2 ^ depth = slot % 2 ^ depth := by
  simp [load, List.countP_pos_iff]

theorem load_congr {other : Nat} (same : slot % 2 ^ depth = other % 2 ^ depth) (entries : List (K × V)) :
    load hash depth slot entries = load hash depth other entries := by
  rw [load, same, load]

theorem load_anti {few : Nat} (less : few ≤ depth) (slot : Nat) (entries : List (K × V)) :
    load hash depth slot entries ≤ load hash few slot entries := by
  refine List.countP_mono_left fun entry _ same => ?_
  rw [decide_eq_true_eq] at same ⊢
  exact mod_of_mod_le less same

theorem load_sublist (part : entries.Sublist list) (depth slot : Nat) :
    load hash depth slot entries ≤ load hash depth slot list := part.countP_le

theorem load_perm (same : entries.Perm list) (depth slot : Nat) :
    load hash depth slot entries = load hash depth slot list := same.countP_eq _

theorem length_routed (formed : state.Formed) (small : slot < state.size) (entries : List (K × V)) :
    (routed hash state.home (state.bucket slot) entries).length = load hash (state.depth slot) slot entries := by
  rw [routed, ← List.countP_eq_length_filter, load]
  refine List.countP_congr fun entry _ => ?_
  rw [decide_eq_true_eq, decide_eq_true_eq, formed.home_eq_iff small, eq_comm]

/-! ### Insertions -/

/-- What an insertion makes of the depths: full buckets on its way are split until it finds room, or until the
bucket is as deep as it may be. -/
inductive Grows (hash : K → UInt32) (most : Nat) (key : UInt32) (entries : List (K × V)) :
    DirectoryState → Bool → DirectoryState → Prop where
  | first {state : DirectoryState} {page : PageId} (flat : state.globalDepth = 0) (nothing : entries = []) :
      Grows hash most key entries state true ((state.setBucket 0 page).setDepth 0 0)
  | put {state : DirectoryState} (roomy : crowd hash (state.reach key) key entries < most) :
      Grows hash most key entries state true state
  | refused {state : DirectoryState} (deepest : state.reach key = state.maxDepth)
      (full : crowd hash (state.reach key) key entries = most) : Grows hash most key entries state false state
  | split {state middle last : DirectoryState} {inserted : Bool} (formed : middle.Formed)
      (full : crowd hash (state.reach key) key entries = most) (deepens : state.Deepens key middle)
      (rest : Grows hash most key entries middle inserted last) : Grows hash most key entries state inserted last

theorem Grows.maxDepth {most : Nat} {key : UInt32} {inserted : Bool} {state last : DirectoryState}
    (grows : Grows hash most key entries state inserted last) : last.maxDepth = state.maxDepth := by
  induction grows with
  | first | put | refused => rfl
  | split formed full deepens rest ih => exact ih.trans deepens.maxDepth

/-- An insertion into a bucket with room splits nothing. -/
theorem Grows.roomy {most : Nat} {key : UInt32} {inserted : Bool} {state last : DirectoryState}
    (grows : Grows hash most key entries state inserted last)
    (roomy : crowd hash (state.reach key) key entries < most) : last.globalDepth = state.globalDepth := by
  cases grows with
  | first | put | refused => rfl
  | split formed full => exact absurd full (Nat.ne_of_lt roomy)

/-- One split is made if the next bit tells the entry from so many of its rivals that there is room. -/
theorem Grows.once {most : Nat} {key : UInt32} {state last : DirectoryState}
    (grows : Grows hash most key entries state true last) (full : crowd hash (state.reach key) key entries = most)
    (roomy : crowd hash (state.reach key + 1) key entries < most) :
    last.globalDepth = max state.globalDepth (state.reach key + 1) := by
  cases grows with
  | first flat nothing =>
    subst nothing
    exact absurd full (Nat.ne_of_lt roomy)
  | put roomy => exact absurd full (Nat.ne_of_lt roomy)
  | split formed full deepens rest => rw [rest.roomy (by rwa [deepens.reach]), deepens.globalDepth]

theorem Grows.globalDepth_le {most : Nat} {key : UInt32} {inserted : Bool} {state last : DirectoryState}
    (grows : Grows hash most key entries state inserted last) : state.globalDepth ≤ last.globalDepth := by
  induction grows with
  | first | put | refused => exact Nat.le_refl _
  | split formed full deepens rest ih => exact Nat.le_trans (deepens.globalDepth ▸ Nat.le_max_left ..) ih

/-- Before an insertion is refused, the bucket is split as long as it may be. -/
theorem Grows.refused_late {most : Nat} {key : UInt32} {state last : DirectoryState}
    (grows : Grows hash most key entries state false last) (shallow : state.reach key < state.maxDepth) :
    state.reach key + 1 ≤ last.globalDepth := by
  cases grows with
  | refused deepest => exact absurd deepest (Nat.ne_of_lt shallow)
  | split formed full deepens rest =>
    exact Nat.le_trans (deepens.globalDepth ▸ Nat.le_max_right ..) rest.globalDepth_le

/-! ### Removals -/

/-- What uniting makes of the depths, one round after the other, until the two halves that are left have an entry
between them, or the other half is in use at greater depths. -/
inductive Unites (hash : K → UInt32) (entries : List (K × V)) : DirectoryState → Nat → DirectoryState → Prop where
  | stuck {state : DirectoryState} {slot : Nat} (mixed : ∀ depth, state.depth slot = depth + 1 →
        state.depth (slot ^^^ 2 ^ depth) = depth + 1 → 0 < load hash depth slot entries) :
      Unites hash entries state slot state
  | united {state next last : DirectoryState} {slot depth : Nat} (formed : next.Formed)
      (joins : state.Joins slot depth next) (rest : Unites hash entries next (slot % 2 ^ depth) last) :
      Unites hash entries state slot last

/-- What a removal makes of the depths. Only entries that share the bucket of a key are taken out, and when the
bucket is left empty it is united with others and the directory shrinks as far as it can. -/
inductive Sheds (hash : K → UInt32) (key : UInt32) (entries list : List (K × V)) :
    DirectoryState → DirectoryState → Prop where
  | kept {state : DirectoryState} (same : list = entries) : Sheds hash key entries list state state
  | thinned {state : DirectoryState}
      (near : ∀ entry ∈ entries, entry ∉ list → state.home (hash entry.1) = state.home key)
      (left : 0 < crowd hash (state.reach key) key list) : Sheds hash key entries list state state
  | emptied {state middle last : DirectoryState}
      (near : ∀ entry ∈ entries, entry ∉ list → state.home (hash entry.1) = state.home key)
      (unites : Unites hash list state (key.toNat % state.size) middle) (shrinks : Directory.Shrinks middle last)
      (least : ¬ last.CanHalve) : Sheds hash key entries list state last

end Table

end PagedIndex
