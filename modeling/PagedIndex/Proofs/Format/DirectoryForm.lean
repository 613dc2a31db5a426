import Mathlib
import PagedIndex.Proofs.Format.DirectoryState

/-!
# Well-formed directories

The slots of a directory that agree in the low bits of their local depth share a bucket, and no others do.
Every change that a table makes to a directory keeps it so.
-/

namespace PagedIndex

/-! ### Low bits -/

theorem mod_eq_iff_bits (a b n : Nat) : a % 2 ^ n = b % 2 ^ n ↔ ∀ i < n, a.testBit i = b.testBit i := by
  constructor
  · intro same i small
    have bits := congrArg (Nat.testBit · i) same
    simpa [Nat.testBit_mod_two_pow, small] using bits
  · intro same
    apply Nat.eq_of_testBit_eq
    intro i
    rw [Nat.testBit_mod_two_pow, Nat.testBit_mod_two_pow]
    by_cases small : i < n
    · rw [same i small]
    · simp [small]

theorem mod_succ_iff (a b n : Nat) :
    a % 2 ^ (n + 1) = b % 2 ^ (n + 1) ↔ a % 2 ^ n = b % 2 ^ n ∧ a.testBit n = b.testBit n := by
  simp only [mod_eq_iff_bits, Nat.lt_succ_iff_lt_or_eq]
  constructor
  · intro all
    exact ⟨fun i small => all i (.inl small), all n (.inr rfl)⟩
  · rintro ⟨low, top⟩ i (small | rfl)
    · exact low i small
    · exact top

theorem mod_of_mod_le {a b m n : Nat} (le : m ≤ n) (same : a % 2 ^ n = b % 2 ^ n) : a % 2 ^ m = b % 2 ^ m := by
  rw [mod_eq_iff_bits] at same ⊢
  exact fun i small => same i (Nat.lt_of_lt_of_le small le)

theorem xor_mod (slot n : Nat) : (slot ^^^ 2 ^ n) % 2 ^ n = slot % 2 ^ n := by
  rw [mod_eq_iff_bits]
  intro i small
  rw [Nat.testBit_xor, Nat.testBit_two_pow]
  simp [Nat.ne_of_gt small]

namespace DirectoryState

/-- The depths are within their limits, and the slots that are not in use are cleared. -/
structure Tidy (state : DirectoryState) : Prop where
  limited : state.maxDepth ≤ maxDirectoryDepth
  shallow : state.globalDepth ≤ state.maxDepth
  cleared : ∀ slot, state.size ≤ slot → state.bucket slot = .invalid ∧ state.depth slot = 0

structure Formed (state : DirectoryState) : Prop where
  limited : state.maxDepth ≤ maxDirectoryDepth
  shallow : state.globalDepth ≤ state.maxDepth
  vacant_or_full : (state.globalDepth = 0 ∧ state.bucket 0 = .invalid) ∨
    ∀ slot < state.size, (state.bucket slot).isValid = true
  depth_le : ∀ slot < state.size, state.depth slot ≤ state.globalDepth
  share_iff : ∀ a < state.size, ∀ b < state.size,
    state.bucket a = state.bucket b ↔ a % 2 ^ state.depth a = b % 2 ^ state.depth a
  depth_eq : ∀ a < state.size, ∀ b < state.size, state.bucket a = state.bucket b → state.depth a = state.depth b
  cleared : ∀ slot, state.size ≤ slot → state.bucket slot = .invalid ∧ state.depth slot = 0

variable {state : DirectoryState}

theorem Formed.tidy (formed : state.Formed) : state.Tidy := ⟨formed.limited, formed.shallow, formed.cleared⟩

theorem Tidy.shallow_max (tidy : state.Tidy) : state.globalDepth ≤ maxDirectoryDepth :=
  Nat.le_trans tidy.shallow tidy.limited

theorem Formed.shallow_max (formed : state.Formed) : state.globalDepth ≤ maxDirectoryDepth :=
  formed.tidy.shallow_max

theorem size_pos (state : DirectoryState) : 0 < state.size := Nat.two_pow_pos _

theorem Formed.full (formed : state.Formed) {slot : Nat} (small : slot < state.size)
    (valid : (state.bucket slot).isValid = true) : ∀ other < state.size, (state.bucket other).isValid = true := by
  rcases formed.vacant_or_full with ⟨flat, vacant⟩ | full
  · have first : slot = 0 := by
      simp only [size, flat, Nat.pow_zero] at small
      omega
    rw [first, vacant] at valid
    cases valid
  · exact full

theorem formed_fresh {maxDepth : Nat} (limited : maxDepth ≤ maxDirectoryDepth) :
    (Directory.freshState maxDepth).Formed where
  limited := limited
  shallow := Nat.zero_le _
  vacant_or_full := .inl ⟨rfl, rfl⟩
  depth_le _ _ := Nat.le_refl _
  share_iff a _ b _ := by simp [Directory.freshState, Nat.mod_one]
  depth_eq _ _ _ _ _ := rfl
  cleared _ _ := ⟨rfl, rfl⟩

theorem Formed.first (formed : state.Formed) (flat : state.globalDepth = 0) {bucket : PageId}
    (valid : bucket.isValid = true) : ((state.setBucket 0 bucket).setDepth 0 0).Formed := by
  have single : ∀ slot, slot < state.size → slot = 0 := fun slot small => by
    simp only [size, flat, Nat.pow_zero] at small
    omega
  exact {
    limited := formed.limited
    shallow := formed.shallow
    vacant_or_full := .inr fun slot small => by
      rw [single slot small]
      simpa [setBucket, setDepth] using valid
    depth_le := fun slot small => by
      rw [single slot small]
      simp [setDepth]
    share_iff := fun a small_a b small_b => by
      rw [single a small_a, single b small_b]
      simp
    depth_eq := fun a small_a b small_b _ => by rw [single a small_a, single b small_b]
    cleared := fun slot large => by
      have differ : slot ≠ 0 := by
        have pos := state.size_pos
        rintro rfl
        exact absurd large (Nat.not_le.mpr pos)
      simpa [setBucket, setDepth, differ] using formed.cleared slot large }

/-! ### Growing and shrinking -/

theorem size_double (state : DirectoryState) : state.double.size = 2 * state.size := by
  change 2 ^ (state.globalDepth + 1) = 2 * 2 ^ state.globalDepth
  rw [Nat.pow_succ, Nat.mul_comm]

theorem Tidy.double (tidy : state.Tidy) (room : state.globalDepth < state.maxDepth) : state.double.Tidy where
  limited := tidy.limited
  shallow := room
  cleared slot large := by
    rw [size_double] at large
    have outside : ¬(state.size ≤ slot ∧ slot < 2 * state.size) := by omega
    have cleared := tidy.cleared slot (by omega)
    exact ⟨(if_neg outside).trans cleared.1, (if_neg outside).trans cleared.2⟩

/-- The upper half repeats the lower one, so a slot may be taken for its remainder. -/
theorem double_slot {slot : Nat} (small : slot < state.double.size) :
    state.double.bucket slot = state.bucket (slot % state.size) ∧
      state.double.depth slot = state.depth (slot % state.size) := by
  rw [size_double] at small
  by_cases upper : state.size ≤ slot
  · have less : slot - state.size < state.size := by omega
    have rest : slot % state.size = slot - state.size := by
      rw [Nat.mod_eq_sub_mod upper, Nat.mod_eq_of_lt less]
    rw [rest]
    exact ⟨if_pos ⟨upper, small⟩, if_pos ⟨upper, small⟩⟩
  · rw [Nat.mod_eq_of_lt (Nat.not_le.mp upper)]
    exact ⟨if_neg fun both => upper both.1, if_neg fun both => upper both.1⟩

theorem mod_size_mod {depth : Nat} (deep : depth ≤ state.globalDepth) (slot : Nat) :
    slot % state.size % 2 ^ depth = slot % 2 ^ depth :=
  Nat.mod_mod_of_dvd slot (Nat.pow_dvd_pow 2 deep)

theorem Formed.double (formed : state.Formed) (room : state.globalDepth < state.maxDepth)
    (full : ∀ slot < state.size, (state.bucket slot).isValid = true) : state.double.Formed where
  limited := formed.limited
  shallow := room
  vacant_or_full := .inr fun slot small => by
    rw [(double_slot small).1]
    exact full _ (Nat.mod_lt _ state.size_pos)
  depth_le slot small := by
    rw [(double_slot small).2]
    exact Nat.le_succ_of_le (formed.depth_le _ (Nat.mod_lt _ state.size_pos))
  share_iff a small_a b small_b := by
    have less_a := Nat.mod_lt a state.size_pos
    rw [(double_slot small_a).1, (double_slot small_b).1, (double_slot small_a).2,
      formed.share_iff _ less_a _ (Nat.mod_lt b state.size_pos), mod_size_mod (formed.depth_le _ less_a),
      mod_size_mod (formed.depth_le _ less_a)]
  depth_eq a small_a b small_b same := by
    rw [(double_slot small_a).1, (double_slot small_b).1] at same
    rw [(double_slot small_a).2, (double_slot small_b).2]
    exact formed.depth_eq _ (Nat.mod_lt a state.size_pos) _ (Nat.mod_lt b state.size_pos) same
  cleared := (formed.tidy.double room).cleared

theorem size_halve (some_depth : 0 < state.globalDepth) : 2 * state.halve.size = state.size :=
  Directory.double_half_size some_depth

theorem Tidy.halve (tidy : state.Tidy) (some_depth : 0 < state.globalDepth) : state.halve.Tidy where
  limited := tidy.limited
  shallow := Nat.le_trans (Nat.sub_le ..) tidy.shallow
  cleared slot large := by
    have whole := size_halve some_depth
    by_cases upper : slot < state.size
    · have inside : state.size / 2 ≤ slot ∧ slot < state.size := by omega
      exact ⟨if_pos inside, if_pos inside⟩
    · have outside : ¬(state.size / 2 ≤ slot ∧ slot < state.size) := by omega
      have cleared := tidy.cleared slot (by omega)
      exact ⟨(if_neg outside).trans cleared.1, (if_neg outside).trans cleared.2⟩

theorem Tidy.halve_double (tidy : state.Tidy) : state.double.halve = state := by
  have whole : state.double.size / 2 = state.size := by
    rw [size_double]
    omega
  have range : ∀ slot, (state.double.size / 2 ≤ slot ∧ slot < state.double.size) ↔
      (state.size ≤ slot ∧ slot < 2 * state.size) := by
    intro slot
    rw [whole, size_double]
  ext slot
  · rfl
  · rfl
  all_goals
    by_cases copied : state.size ≤ slot ∧ slot < 2 * state.size
    · refine (if_pos ((range slot).mpr copied)).trans (Eq.symm ?_)
      simp only [tidy.cleared slot copied.1]
    · exact (if_neg (mt (range slot).mp copied)).trans (if_neg copied)

theorem halve_slot {slot : Nat} (some_depth : 0 < state.globalDepth) (small : slot < state.halve.size) :
    state.halve.bucket slot = state.bucket slot ∧ state.halve.depth slot = state.depth slot := by
  have whole := size_halve some_depth
  have outside : ¬(state.size / 2 ≤ slot ∧ slot < state.size) := by omega
  exact ⟨if_neg outside, if_neg outside⟩

theorem Formed.halve (formed : state.Formed) (can : state.CanHalve) : state.halve.Formed := by
  have whole := size_halve can.1
  have less : ∀ slot < state.halve.size, slot < state.size := fun slot small => by omega
  have kept := fun slot (small : slot < state.halve.size) => halve_slot can.1 small
  exact {
    limited := formed.limited
    shallow := Nat.le_trans (Nat.sub_le ..) formed.shallow
    vacant_or_full := by
      rcases formed.vacant_or_full with ⟨flat, _⟩ | full
      · exact absurd flat (Nat.ne_of_gt can.1)
      · exact .inr fun slot small => by
          rw [(kept slot small).1]
          exact full slot (less slot small)
    depth_le := fun slot small => by
      rw [(kept slot small).2]
      exact Nat.le_sub_one_of_lt (can.2 slot (less slot small))
    share_iff := fun a small_a b small_b => by
      rw [(kept a small_a).1, (kept b small_b).1, (kept a small_a).2]
      exact formed.share_iff a (less a small_a) b (less b small_b)
    depth_eq := fun a small_a b small_b same => by
      rw [(kept a small_a).1, (kept b small_b).1] at same
      rw [(kept a small_a).2, (kept b small_b).2]
      exact formed.depth_eq a (less a small_a) b (less b small_b) same
    cleared := (formed.tidy.halve can.1).cleared }

/-! ### Splitting -/

theorem divide_slot (bucket image : PageId) (depth : Nat) {slot : Nat} (small : slot < state.size) :
    (state.divide bucket image depth).bucket slot =
        (if state.bucket slot = bucket ∧ slot.testBit depth = true then image else state.bucket slot) ∧
      (state.divide bucket image depth).depth slot =
        (if state.bucket slot = bucket then depth + 1 else state.depth slot) :=
  ⟨if_pos ⟨Nat.zero_le _, small⟩, if_pos ⟨Nat.zero_le _, small⟩⟩

theorem divide_bucket_eq {bucket image : PageId} {depth a b : Nat}
    (fresh : ∀ other < state.size, state.bucket other ≠ image) (small_a : a < state.size) (small_b : b < state.size) :
    (state.divide bucket image depth).bucket a = (state.divide bucket image depth).bucket b ↔
      state.bucket a = state.bucket b ∧
        (state.bucket a = bucket → a.testBit depth = b.testBit depth) := by
  rw [(divide_slot bucket image depth small_a).1, (divide_slot bucket image depth small_b).1]
  have fresh_a := fresh a small_a
  have new_a := fresh_a.symm
  have new_b := (fresh b small_b).symm
  by_cases here_a : state.bucket a = bucket <;> by_cases here_b : state.bucket b = bucket
  · cases a.testBit depth <;> cases b.testBit depth <;> simp_all
  · have apart := Ne.symm here_b
    cases a.testBit depth <;> simp_all
  · cases b.testBit depth <;> simp_all
  · simp [here_a, here_b]

/-- A bucket that is not as deep as its directory is split on one bit more; its image is a new page. -/
theorem Formed.divide (formed : state.Formed) {slot : Nat} (small : slot < state.size)
    (less : state.depth slot < state.globalDepth) {image : PageId} (valid : image.isValid = true)
    (fresh : ∀ other < state.size, state.bucket other ≠ image)
    (full : ∀ other < state.size, (state.bucket other).isValid = true) :
    (state.divide (state.bucket slot) image (state.depth slot)).Formed := by
  have shown := fun other (little : other < state.size) =>
    divide_slot (state.bucket slot) image (state.depth slot) little
  have depth_of : ∀ other < state.size, state.bucket other = state.bucket slot →
      state.depth other = state.depth slot := fun other little => formed.depth_eq other little slot small
  exact {
    limited := formed.limited
    shallow := formed.shallow
    vacant_or_full := .inr fun other little => by
      rw [(shown other little).1]
      split
      · exact valid
      · exact full other little
    depth_le := fun other little => by
      rw [(shown other little).2]
      split
      · exact less
      · exact formed.depth_le other little
    share_iff := fun a small_a b small_b => by
      rw [divide_bucket_eq fresh small_a small_b, (shown a small_a).2, formed.share_iff a small_a b small_b]
      by_cases here : state.bucket a = state.bucket slot
      · rw [if_pos here, depth_of a small_a here, mod_succ_iff]
        simp [here]
      · simp [here]
    depth_eq := fun a small_a b small_b same => by
      obtain ⟨same, _⟩ := (divide_bucket_eq fresh small_a small_b).mp same
      rw [(shown a small_a).2, (shown b small_b).2, same, formed.depth_eq a small_a b small_b same]
    cleared := fun other large => by
      have big : state.size ≤ other := large
      have outside : ¬(0 ≤ other ∧ other < state.size) := by omega
      have cleared := formed.cleared other large
      exact ⟨(if_neg outside).trans cleared.1, (if_neg outside).trans cleared.2⟩ }

/-! ### Uniting -/

theorem unite_slot (kept emptied : PageId) (depth : Nat) {slot : Nat} (small : slot < state.size) :
    (state.unite kept emptied depth).bucket slot =
        (if state.bucket slot = kept ∨ state.bucket slot = emptied then kept else state.bucket slot) ∧
      (state.unite kept emptied depth).depth slot =
        (if state.bucket slot = kept ∨ state.bucket slot = emptied then depth else state.depth slot) :=
  ⟨if_pos ⟨Nat.zero_le _, small⟩, if_pos ⟨Nat.zero_le _, small⟩⟩

/-- Two slots whose buckets are the halves of one that was split at some depth. -/
structure Buddies (state : DirectoryState) (depth x y : Nat) : Prop where
  small_x : x < state.size
  small_y : y < state.size
  depth_x : state.depth x = depth + 1
  depth_y : state.depth y = depth + 1
  low : x % 2 ^ depth = y % 2 ^ depth
  apart : state.bucket x ≠ state.bucket y

theorem Buddies.symm {depth x y : Nat} (buddies : state.Buddies depth x y) : state.Buddies depth y x :=
  ⟨buddies.small_y, buddies.small_x, buddies.depth_y, buddies.depth_x, buddies.low.symm, buddies.apart.symm⟩

/-- The slots of two halves are those that agree with them in the bits before the split. -/
theorem Formed.half_iff (formed : state.Formed) {depth x y slot : Nat} (buddies : state.Buddies depth x y)
    (small : slot < state.size) :
    state.bucket slot = state.bucket x ∨ state.bucket slot = state.bucket y ↔ x % 2 ^ depth = slot % 2 ^ depth := by
  have share_x := formed.share_iff x buddies.small_x slot small
  have share_y := formed.share_iff y buddies.small_y slot small
  have share_xy := formed.share_iff x buddies.small_x y buddies.small_y
  rw [buddies.depth_x, mod_succ_iff] at share_x share_xy
  rw [buddies.depth_y, mod_succ_iff] at share_y
  have bits : x.testBit depth ≠ y.testBit depth := fun same => buddies.apart (share_xy.mpr ⟨buddies.low, same⟩)
  constructor
  · rintro (same | same)
    · exact (share_x.mp same.symm).1
    · exact buddies.low.trans (share_y.mp same.symm).1
  · intro low
    by_cases bit : x.testBit depth = slot.testBit depth
    · exact .inl (share_x.mpr ⟨low, bit⟩).symm
    · refine .inr (share_y.mpr ⟨buddies.low.symm.trans low, ?_⟩).symm
      cases here : x.testBit depth <;> cases there : y.testBit depth <;> cases found : slot.testBit depth <;>
        simp_all

theorem Formed.unite_bucket_eq (formed : state.Formed) {depth x y a b : Nat} (buddies : state.Buddies depth x y)
    (small_a : a < state.size) (small_b : b < state.size) :
    (state.unite (state.bucket x) (state.bucket y) depth).bucket a =
        (state.unite (state.bucket x) (state.bucket y) depth).bucket b ↔
      (x % 2 ^ depth = a % 2 ^ depth ∧ x % 2 ^ depth = b % 2 ^ depth) ∨
        (x % 2 ^ depth ≠ a % 2 ^ depth ∧ x % 2 ^ depth ≠ b % 2 ^ depth ∧ state.bucket a = state.bucket b) := by
  have half_a := formed.half_iff buddies small_a
  have half_b := formed.half_iff buddies small_b
  rw [(unite_slot _ _ _ small_a).1, (unite_slot _ _ _ small_b).1]
  simp only [half_a, half_b]
  by_cases in_a : x % 2 ^ depth = a % 2 ^ depth <;> by_cases in_b : x % 2 ^ depth = b % 2 ^ depth
  · rw [if_pos in_a, if_pos in_b]
    exact iff_of_true rfl (.inl ⟨in_a, in_b⟩)
  · rw [if_pos in_a, if_neg in_b]
    refine iff_of_false (fun same => in_b (half_b.mp (.inl same.symm))) ?_
    rintro (⟨_, there⟩ | ⟨out, _⟩)
    · exact in_b there
    · exact out in_a
  · rw [if_neg in_a, if_pos in_b]
    refine iff_of_false (fun same => in_a (half_a.mp (.inl same))) ?_
    rintro (⟨there, _⟩ | ⟨_, out, _⟩)
    · exact in_a there
    · exact out in_b
  · rw [if_neg in_a, if_neg in_b]
    simp [in_a, in_b]

theorem Formed.unite (formed : state.Formed) {depth x y : Nat} (buddies : state.Buddies depth x y)
    (full : ∀ other < state.size, (state.bucket other).isValid = true) :
    (state.unite (state.bucket x) (state.bucket y) depth).Formed := by
  have shown := fun other (little : other < state.size) =>
    unite_slot (state.bucket x) (state.bucket y) depth little
  have half := fun slot (small : slot < state.size) => formed.half_iff buddies small
  exact {
    limited := formed.limited
    shallow := formed.shallow
    vacant_or_full := .inr fun other little => by
      rw [(shown other little).1]
      split
      · exact full x buddies.small_x
      · exact full other little
    depth_le := fun other little => by
      have deep := formed.depth_le x buddies.small_x
      rw [buddies.depth_x] at deep
      rw [(shown other little).2]
      split
      · exact Nat.le_of_succ_le deep
      · exact formed.depth_le other little
    -- Two slots share a bucket if both are on the united half, or if neither is and they shared one before.
    share_iff := fun a small_a b small_b => by
      rw [formed.unite_bucket_eq buddies small_a small_b, (shown a small_a).2]
      simp only [half a small_a]
      by_cases in_a : x % 2 ^ depth = a % 2 ^ depth
      · rw [if_pos in_a, ← in_a]
        simp
      · rw [if_neg in_a, ← formed.share_iff a small_a b small_b]
        constructor
        · rintro (⟨there, _⟩ | ⟨_, _, same⟩)
          · exact absurd there in_a
          · exact same
        · intro same
          refine .inr ⟨in_a, fun in_b => in_a ?_, same⟩
          have halves := (half b small_b).mpr in_b
          rw [← same] at halves
          exact (half a small_a).mp halves
    depth_eq := fun a small_a b small_b same => by
      rw [(shown a small_a).2, (shown b small_b).2]
      simp only [half a small_a, half b small_b]
      rcases (formed.unite_bucket_eq buddies small_a small_b).mp same with ⟨in_a, in_b⟩ | ⟨out_a, out_b, same⟩
      · rw [if_pos in_a, if_pos in_b]
      · rw [if_neg out_a, if_neg out_b]
        exact formed.depth_eq a small_a b small_b same
    cleared := fun other large => by
      have big : state.size ≤ other := large
      have outside : ¬(0 ≤ other ∧ other < state.size) := by omega
      have cleared := formed.cleared other large
      exact ⟨(if_neg outside).trans cleared.1, (if_neg outside).trans cleared.2⟩ }

theorem image_lt {slot depth : Nat} (small : slot < state.size) (deep : depth < state.globalDepth) :
    slot ^^^ 2 ^ depth < state.size :=
  Nat.xor_lt_two_pow small (Nat.pow_lt_pow_right (by decide) deep)

theorem Formed.buddies_of_buddy? (formed : state.Formed) {slot deep : Nat} {page : PageId}
    (small : slot < state.size) (found : state.buddy? slot (state.bucket slot) = some (deep, page)) :
    ∃ depth, deep = depth + 1 ∧ state.Buddies depth slot (slot ^^^ 2 ^ depth) ∧
      state.bucket (slot ^^^ 2 ^ depth) = page := by
  unfold buddy? at found
  simp only at found
  split at found
  · cases found
  · rename_i other
    cases found
    simp only [not_or, not_not] at other
    obtain ⟨some_depth, depth_image, _, apart⟩ := other
    obtain ⟨depth, deep⟩ := Nat.exists_eq_succ_of_ne_zero some_depth
    have below := formed.depth_le slot small
    rw [deep, Nat.succ_eq_add_one, Nat.add_sub_cancel] at depth_image apart ⊢
    have image := image_lt small (by omega : depth < state.globalDepth)
    exact ⟨depth, rfl, ⟨small, image, deep, depth_image, (xor_mod slot _).symm, fun same => apart same.symm⟩, rfl⟩

/-- A bucket without a buddy is whole, or its other half was split again. -/
theorem Formed.image_of_no_buddy (formed : state.Formed) {slot depth : Nat} (small : slot < state.size)
    (full : ∀ other < state.size, (state.bucket other).isValid = true)
    (none : state.buddy? slot (state.bucket slot) = none) (deep : state.depth slot = depth + 1) :
    state.depth (slot ^^^ 2 ^ depth) ≠ depth + 1 := by
  intro same
  have below := formed.depth_le slot small
  have image := image_lt small (by omega : depth < state.globalDepth)
  unfold buddy? at none
  simp only [deep, Nat.add_sub_cancel, same, full _ image] at none
  have shared : state.bucket (slot ^^^ 2 ^ depth) = state.bucket slot := by simpa using none
  have agree := (formed.share_iff _ image slot small).mp shared
  rw [same, mod_succ_iff, Nat.testBit_xor, Nat.testBit_two_pow_self] at agree
  simp at agree

end DirectoryState

end PagedIndex
