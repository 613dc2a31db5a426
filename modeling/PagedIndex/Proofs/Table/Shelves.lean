import Mathlib
import PagedIndex.Proofs.Format.BucketEntries
import PagedIndex.Proofs.Format.DirectoryForm

/-!
# Entries on their shelves

A directory gives every entry the bucket in the slot of its hash. The buckets hold a list of entries if each
of them holds those of its own, in their order.
-/

namespace PagedIndex

namespace DirectoryState

variable {state : DirectoryState}

def Mentions (state : DirectoryState) (page : PageId) : Prop :=
  page.isValid = true ∧ ∃ slot < state.size, state.bucket slot = page

def home (state : DirectoryState) (hash : UInt32) : PageId := state.bucket (hash.toNat % state.size)

/-- How many low bits the hashes on the shelf of a hash share. -/
def reach (state : DirectoryState) (hash : UInt32) : Nat := state.depth (hash.toNat % state.size)

theorem slot_lt (state : DirectoryState) (hash : UInt32) : hash.toNat % state.size < state.size :=
  Nat.mod_lt _ state.size_pos

theorem mentions_home {hash : UInt32} (valid : (state.home hash).isValid = true) :
    state.Mentions (state.home hash) :=
  ⟨valid, _, state.slot_lt hash, rfl⟩

theorem Formed.home_eq_iff (formed : state.Formed) {slot : Nat} (small : slot < state.size) (hash : UInt32) :
    state.home hash = state.bucket slot ↔ slot % 2 ^ state.depth slot = hash.toNat % 2 ^ state.depth slot := by
  rw [← mod_size_mod (formed.depth_le slot small) hash.toNat,
    ← formed.share_iff slot small _ (state.slot_lt hash)]
  exact eq_comm

theorem Formed.reach_le (formed : state.Formed) (hash : UInt32) : state.reach hash ≤ state.maxDepth :=
  Nat.le_trans (formed.depth_le _ (state.slot_lt hash)) formed.shallow

theorem Formed.full_of_reach (formed : state.Formed) {hash : UInt32} (some_bit : 0 < state.reach hash) :
    ∀ slot < state.size, (state.bucket slot).isValid = true := by
  rcases formed.vacant_or_full with ⟨flat, _⟩ | full
  · have deep := formed.depth_le _ (state.slot_lt hash)
    rw [reach] at some_bit
    omega
  · exact full

/-- Two hashes have one bucket if they agree in as many low bits as it reaches. -/
theorem Formed.home_eq_home_iff (formed : state.Formed) (first second : UInt32) :
    state.home first = state.home second ↔
      first.toNat % 2 ^ state.reach second = second.toNat % 2 ^ state.reach second := by
  have deep := formed.depth_le _ (state.slot_lt second)
  change state.home first = state.bucket (second.toNat % state.size) ↔ _
  rw [formed.home_eq_iff (state.slot_lt second), reach, mod_size_mod deep]
  exact eq_comm

theorem Formed.mentions_valid (formed : state.Formed) {page : PageId} (mentioned : state.Mentions page) :
    ∀ slot < state.size, (state.bucket slot).isValid = true := by
  obtain ⟨valid, slot, small, rfl⟩ := mentioned
  exact formed.full small valid

theorem bucket_first (page : PageId) (slot : Nat) :
    ((state.setBucket 0 page).setDepth 0 0).bucket slot = if slot = 0 then page else state.bucket slot := by
  simp [setBucket, setDepth, Function.update_apply]

theorem mentions_first {page other : PageId} (mentioned : ((state.setBucket 0 page).setDepth 0 0).Mentions other) :
    other = page ∨ state.Mentions other := by
  obtain ⟨valid, slot, small, rfl⟩ := mentioned
  rw [bucket_first] at valid ⊢
  split
  · exact .inl rfl
  · rename_i other
    rw [if_neg other] at valid
    exact .inr ⟨valid, slot, small, rfl⟩

theorem Formed.mentions_first_iff (formed : state.Formed) (vacant : (state.bucket 0).isValid = false) {page : PageId}
    (valid : page.isValid = true) (other : PageId) :
    ((state.setBucket 0 page).setDepth 0 0).Mentions other ↔ state.Mentions other ∨ other = page := by
  refine ⟨fun mentioned => (mentions_first mentioned).symm, ?_⟩
  rintro (mentioned | rfl)
  · have some_first := formed.mentions_valid mentioned 0 state.size_pos
    rw [vacant] at some_first
    cases some_first
  · exact ⟨valid, 0, state.size_pos, by rw [bucket_first, if_pos rfl]⟩

theorem home_double (hash : UInt32) : state.double.home hash = state.home hash := by
  rw [home, (double_slot (state.double.slot_lt hash)).1, size_double, home, Nat.mod_mul_left_mod]

theorem reach_double (hash : UInt32) : state.double.reach hash = state.reach hash := by
  rw [reach, (double_slot (state.double.slot_lt hash)).2, size_double, reach, Nat.mod_mul_left_mod]

theorem mentions_double {page : PageId} (mentioned : state.double.Mentions page) : state.Mentions page := by
  obtain ⟨valid, slot, small, rfl⟩ := mentioned
  exact ⟨valid, _, Nat.mod_lt _ state.size_pos, ((double_slot small).1).symm⟩

theorem mentions_double_iff (page : PageId) : state.double.Mentions page ↔ state.Mentions page := by
  refine ⟨mentions_double, ?_⟩
  rintro ⟨valid, slot, small, rfl⟩
  have less : slot < state.double.size := by
    rw [size_double]
    omega
  exact ⟨valid, slot, less, by rw [(double_slot less).1, Nat.mod_eq_of_lt small]⟩

/-- Slots that agree in the low bits of a local depth have one bucket and one depth. -/
def Shared (state : DirectoryState) : Prop :=
  ∀ a < state.size, ∀ b < state.size, a % 2 ^ state.depth a = b % 2 ^ state.depth a →
    state.bucket b = state.bucket a ∧ state.depth b = state.depth a

theorem Formed.shared (formed : state.Formed) : state.Shared := by
  intro a small_a b small_b agree
  have same := (formed.share_iff a small_a b small_b).mpr agree
  exact ⟨same.symm, (formed.depth_eq a small_a b small_b same).symm⟩

/-- A hash finds in half the directory what it found in the whole of it. -/
theorem Shared.halve (shared : state.Shared) (can : state.CanHalve) (hash : UInt32) :
    state.halve.home hash = state.home hash ∧ state.halve.reach hash = state.reach hash := by
  have whole := size_halve can.1
  have small := state.halve.slot_lt hash
  have less := state.slot_lt hash
  obtain ⟨bucket, depth⟩ := halve_slot can.1 small
  unfold home reach
  rw [bucket, depth]
  apply shared _ less _ (by omega)
  -- Both slots have the bits of the hash below the top one, and no slot uses that one.
  have low : state.depth (hash.toNat % state.size) ≤ state.halve.globalDepth := Nat.le_sub_one_of_lt (can.2 _ less)
  rw [mod_size_mod (Nat.le_of_lt (can.2 _ less)), mod_size_mod low]

theorem Formed.home_halve (formed : state.Formed) (can : state.CanHalve) (hash : UInt32) :
    state.halve.home hash = state.home hash :=
  (formed.shared.halve can hash).1

theorem Formed.reach_halve (formed : state.Formed) (can : state.CanHalve) (hash : UInt32) :
    state.halve.reach hash = state.reach hash :=
  (formed.shared.halve can hash).2

theorem mentions_halve (can : state.CanHalve) {page : PageId} (mentioned : state.halve.Mentions page) :
    state.Mentions page := by
  have whole := size_halve can.1
  obtain ⟨valid, slot, small, rfl⟩ := mentioned
  exact ⟨valid, slot, by omega, ((halve_slot can.1 small).1).symm⟩

theorem Formed.mentions_halve_iff (formed : state.Formed) (can : state.CanHalve) (page : PageId) :
    state.halve.Mentions page ↔ state.Mentions page := by
  refine ⟨mentions_halve can, ?_⟩
  rintro ⟨valid, slot, small, rfl⟩
  have less : slot % state.halve.size < state.halve.size := Nat.mod_lt _ state.halve.size_pos
  have whole := size_halve can.1
  refine ⟨valid, _, less, ?_⟩
  rw [(halve_slot can.1 less).1, eq_comm, formed.share_iff slot small _ (by omega)]
  exact (Nat.mod_mod_of_dvd slot (Nat.pow_dvd_pow 2 (Nat.le_sub_one_of_lt (can.2 slot small)))).symm

theorem home_divide {bucket image : PageId} {depth : Nat} (deep : depth < state.globalDepth) (hash : UInt32) :
    (state.divide bucket image depth).home hash =
      if state.home hash = bucket ∧ hash.toNat.testBit depth = true then image else state.home hash := by
  have bit : (hash.toNat % state.size).testBit depth = hash.toNat.testBit depth := by
    rw [size, Nat.testBit_mod_two_pow]
    simp [deep]
  rw [← bit]
  exact (divide_slot bucket image depth (state.slot_lt hash)).1

theorem mentions_divide {bucket image page : PageId} {depth : Nat}
    (mentioned : (state.divide bucket image depth).Mentions page) : page = image ∨ state.Mentions page := by
  obtain ⟨valid, slot, small, rfl⟩ := mentioned
  have little : slot < state.size := small
  rw [(divide_slot bucket image depth little).1] at valid ⊢
  split
  · exact .inl rfl
  · rename_i other
    rw [if_neg other] at valid
    exact .inr ⟨valid, slot, little, rfl⟩

theorem Formed.both_halves (formed : state.Formed) {slot : Nat} (small : slot < state.size)
    (less : state.depth slot < state.globalDepth) (bit : Bool) :
    ∃ half < state.size, state.bucket half = state.bucket slot ∧ half.testBit (state.depth slot) = bit := by
  by_cases same : slot.testBit (state.depth slot) = bit
  · exact ⟨slot, small, rfl, same⟩
  · have within := image_lt small less
    refine ⟨_, within, ?_, ?_⟩
    · rw [eq_comm, formed.share_iff slot small _ within, xor_mod]
    · rw [Nat.testBit_xor, Nat.testBit_two_pow_self]
      cases bit <;> simp_all

theorem Formed.mentions_divide_iff (formed : state.Formed) {slot : Nat} (small : slot < state.size)
    (less : state.depth slot < state.globalDepth) {image : PageId} (valid : image.isValid = true) (page : PageId) :
    (state.divide (state.bucket slot) image (state.depth slot)).Mentions page ↔
      state.Mentions page ∨ page = image := by
  refine ⟨fun there => (mentions_divide there).symm, ?_⟩
  have lists : ∀ other < state.size, ∀ found, found.isValid = true →
      (if state.bucket other = state.bucket slot ∧ other.testBit (state.depth slot) = true then image
        else state.bucket other) = found →
      (state.divide (state.bucket slot) image (state.depth slot)).Mentions found := fun other little found real same =>
    ⟨real, other, little, ((divide_slot _ image _ little).1).trans same⟩
  rintro (there | rfl)
  · by_cases here : page = state.bucket slot
    · obtain ⟨half, little, same, clear⟩ := formed.both_halves small less false
      exact lists half little page there.1 (by simp [clear, same, here])
    · obtain ⟨real, other, little, rfl⟩ := there
      exact lists other little _ real (by simp [here])
  · obtain ⟨half, little, same, set⟩ := formed.both_halves small less true
    exact lists half little page valid (by simp [set, same])

theorem home_unite {kept emptied : PageId} {depth : Nat} (hash : UInt32) :
    (state.unite kept emptied depth).home hash =
      if state.home hash = kept ∨ state.home hash = emptied then kept else state.home hash :=
  (unite_slot kept emptied depth (state.slot_lt hash)).1

theorem mentions_unite {kept emptied page : PageId} {depth : Nat} (mentioned_kept : state.Mentions kept)
    (mentioned : (state.unite kept emptied depth).Mentions page) :
    state.Mentions page ∧ (page = kept ∨ page ≠ emptied) := by
  obtain ⟨valid, slot, small, rfl⟩ := mentioned
  have little : slot < state.size := small
  rw [(unite_slot kept emptied depth little).1] at valid ⊢
  split
  · exact ⟨mentioned_kept, .inl rfl⟩
  · rename_i other
    rw [if_neg other] at valid
    exact ⟨⟨valid, slot, little, rfl⟩, .inr fun same => other (.inr same)⟩

theorem mentions_unite_iff {kept emptied : PageId} {depth : Nat} (mentioned_kept : state.Mentions kept)
    (apart : kept ≠ emptied) (page : PageId) :
    (state.unite kept emptied depth).Mentions page ↔ state.Mentions page ∧ page ≠ emptied := by
  constructor
  · intro mentioned
    obtain ⟨before, rfl | other⟩ := mentions_unite mentioned_kept mentioned
    · exact ⟨before, apart⟩
    · exact ⟨before, other⟩
  · rintro ⟨⟨valid, slot, small, rfl⟩, other⟩
    refine ⟨valid, slot, small, ((unite_slot kept emptied depth small).1).trans ?_⟩
    by_cases here : state.bucket slot = kept <;> simp [here, other]

end DirectoryState

namespace Table

open DirectoryState

variable {K V : Type} {hash : K → UInt32} {content later : PageId → Page} {next : UInt32}
  {state : DirectoryState} {limit : Nat} {entries : List (K × V)} {page : PageId}

/-- Those of the entries whose hash leads to a place. -/
def routed {α : Type} [DecidableEq α] (hash : K → UInt32) (route : UInt32 → α) (place : α) (entries : List (K × V)) :
    List (K × V) :=
  entries.filter fun entry => route (hash entry.1) = place

/-- The values under a key, oldest first. -/
def under (compare : K → K → Ordering) (key : K) (entries : List (K × V)) : List V :=
  (entries.filter fun entry => compare entry.1 key = .eq).map (·.2)

def without (compare : K → K → Ordering) (key : K) (entries : List (K × V)) : List (K × V) :=
  entries.filter fun entry => compare entry.1 key ≠ .eq

/-- What is left when the entries under a key are taken out of the place that the key leads to. -/
def struck {α : Type} [DecidableEq α] (hash : K → UInt32) (route : UInt32 → α) (compare : K → K → Ordering) (key : K)
    (entries : List (K × V)) : List (K × V) :=
  entries.filter fun entry => ¬(route (hash entry.1) = route (hash key) ∧ compare entry.1 key = .eq)

/-- How many entries agree with a hash in its low bits. -/
def crowd (hash : K → UInt32) (depth : Nat) (key : UInt32) (entries : List (K × V)) : Nat :=
  entries.countP fun entry => (hash entry.1).toNat % 2 ^ depth = key.toNat % 2 ^ depth

/-- Keys that are equal have equal hashes. -/
def Agrees (compare : K → K → Ordering) (hash : K → UInt32) : Prop := ∀ a b, compare a b = .eq → hash a = hash b

section Places

variable {α : Type} [DecidableEq α] {route : UInt32 → α} {place : α} {compare : K → K → Ordering} {key : K}

theorem routed_append_home (key : K) (value : V) :
    routed hash route (route (hash key)) (entries ++ [(key, value)]) =
      routed hash route (route (hash key)) entries ++ [(key, value)] := by
  simp [routed, List.filter_append]

theorem routed_append_other (other : route (hash key) ≠ place) (value : V) :
    routed hash route place (entries ++ [(key, value)]) = routed hash route place entries := by
  simp [routed, List.filter_append, other]

theorem routed_struck_home (key : K) (entries : List (K × V)) :
    routed hash route (route (hash key)) (struck hash route compare key entries) =
      without compare key (routed hash route (route (hash key)) entries) := by
  rw [routed, struck, without, routed, List.filter_filter, List.filter_filter]
  refine List.filter_congr fun entry _ => ?_
  by_cases here : route (hash entry.1) = route (hash key) <;> simp [here]

theorem routed_struck_other (key : K) (entries : List (K × V)) (other : route (hash key) ≠ place) :
    routed hash route place (struck hash route compare key entries) = routed hash route place entries := by
  rw [routed, struck, List.filter_filter, routed]
  refine List.filter_congr fun entry _ => ?_
  by_cases here : route (hash entry.1) = place <;> simp [here, other.symm]

theorem routed_struck_both {β : Type} [DecidableEq β] (inner : UInt32 → β) (key : K) (entries : List (K × V)) :
    routed hash route (route (hash key)) (struck hash (fun hash => (route hash, inner hash)) compare key entries) =
      struck hash inner compare key (routed hash route (route (hash key)) entries) := by
  rw [routed, struck, struck, routed, List.filter_filter, List.filter_filter]
  refine List.filter_congr fun entry _ => ?_
  by_cases here : route (hash entry.1) = route (hash key) <;> simp [here]

theorem routed_struck_apart {β : Type} [DecidableEq β] (inner : UInt32 → β) (key : K) (entries : List (K × V))
    (other : route (hash key) ≠ place) :
    routed hash route place (struck hash (fun hash => (route hash, inner hash)) compare key entries) =
      routed hash route place entries := by
  rw [routed, struck, List.filter_filter, routed]
  refine List.filter_congr fun entry _ => ?_
  by_cases here : route (hash entry.1) = place <;> simp [here, other.symm]

theorem struck_of_none (none : under compare key (routed hash route (route (hash key)) entries) = []) :
    struck hash route compare key entries = entries := by
  rw [under, routed, List.map_eq_nil_iff, List.filter_eq_nil_iff] at none
  refine List.filter_eq_self.mpr fun entry member => ?_
  by_cases here : route (hash entry.1) = route (hash key)
  · have there := none entry (List.mem_filter.mpr ⟨member, by simpa using here⟩)
    simpa [here] using there
  · simp [here]

theorem route_of_struck {entry : K × V} (member : entry ∈ entries)
    (gone : entry ∉ struck hash route compare key entries) : route (hash entry.1) = route (hash key) := by
  by_contra other
  exact gone (List.mem_filter.mpr ⟨member, by simp [other]⟩)

/-- If equal keys have equal hashes, the entries under a key are all where it leads to. -/
theorem struck_eq_without (agrees : Agrees compare hash) (key : K) (entries : List (K × V)) :
    struck hash route compare key entries = without compare key entries := by
  refine List.filter_congr fun entry _ => ?_
  by_cases same : compare entry.1 key = .eq
  · simp [same, agrees _ _ same]
  · simp [same]

theorem under_routed (agrees : Agrees compare hash) (key : K) (entries : List (K × V)) :
    under compare key (routed hash route (route (hash key)) entries) = under compare key entries := by
  rw [under, under, routed, List.filter_filter]
  congr 1
  refine List.filter_congr fun entry _ => ?_
  by_cases same : compare entry.1 key = .eq
  · simp [same, agrees _ _ same]
  · simp [same]

end Places

theorem crowd_le (formed : state.Formed) {depth : Nat} {key : UInt32} (deep : state.reach key ≤ depth)
    (entries : List (K × V)) :
    crowd hash depth key entries ≤ (routed hash state.home (state.home key) entries).length := by
  rw [crowd, routed, ← List.countP_eq_length_filter]
  refine List.countP_mono_left fun entry _ same => ?_
  rw [decide_eq_true_eq] at same ⊢
  exact (formed.home_eq_home_iff _ _).mpr (mod_of_mod_le deep same)

theorem crowd_reach (formed : state.Formed) (key : UInt32) (entries : List (K × V)) :
    crowd hash (state.reach key) key entries = (routed hash state.home (state.home key) entries).length := by
  rw [crowd, routed, ← List.countP_eq_length_filter]
  refine List.countP_congr fun entry _ => ?_
  rw [decide_eq_true_eq, decide_eq_true_eq, formed.home_eq_home_iff]

theorem routed_divide_image {bucket image : PageId} {depth : Nat} (deep : depth < state.globalDepth)
    (new : ∀ key, state.home (hash key) ≠ image) :
    routed hash (state.divide bucket image depth).home image entries =
      (routed hash state.home bucket entries).filter fun entry => (hash entry.1).toNat.testBit depth := by
  rw [routed, routed, List.filter_filter]
  refine List.filter_congr fun entry _ => ?_
  have differ := new entry.1
  rw [home_divide deep]
  cases (hash entry.1).toNat.testBit depth <;> simp [differ]

theorem routed_divide_kept {bucket image : PageId} {depth : Nat} (deep : depth < state.globalDepth)
    (apart : bucket ≠ image) :
    routed hash (state.divide bucket image depth).home bucket entries =
      (routed hash state.home bucket entries).filter fun entry => !(hash entry.1).toNat.testBit depth := by
  rw [routed, routed, List.filter_filter]
  refine List.filter_congr fun entry _ => ?_
  rw [home_divide deep]
  by_cases home : state.home (hash entry.1) = bucket
  · cases (hash entry.1).toNat.testBit depth <;> simp [home, apart.symm]
  · simp [home]

theorem routed_divide_other {bucket image : PageId} {depth : Nat} (deep : depth < state.globalDepth)
    (other : page ≠ bucket) (apart : page ≠ image) :
    routed hash (state.divide bucket image depth).home page entries = routed hash state.home page entries := by
  rw [routed, routed]
  refine List.filter_congr fun entry _ => ?_
  rw [home_divide deep]
  by_cases home : state.home (hash entry.1) = bucket
  · cases (hash entry.1).toNat.testBit depth <;> simp [home, other.symm, apart.symm]
  · simp [home]

theorem routed_unite {kept emptied : PageId} {depth : Nat} (nothing : routed hash state.home emptied entries = []) :
    routed hash (state.unite kept emptied depth).home page entries = routed hash state.home page entries := by
  rw [routed, routed]
  refine List.filter_congr fun entry member => ?_
  have elsewhere : state.home (hash entry.1) ≠ emptied := fun home => by
    have there : entry ∈ routed hash state.home emptied entries := List.mem_filter.mpr ⟨member, by simpa using home⟩
    rw [nothing] at there
    cases there
  rw [home_unite]
  by_cases home : state.home (hash entry.1) = kept <;> simp [home, elsewhere]

variable [FixedWidth K] [FixedWidth V]

structure Shelves (hash : K → UInt32) (content : PageId → Page) (next : UInt32) (state : DirectoryState)
    (limit : Nat) (entries : List (K × V)) : Prop where
  formed : state.Formed
  empty : (state.bucket 0).isValid = false → entries = []
  issued : ∀ page, state.Mentions page → page.number < next
  holds : ∀ page, state.Mentions page → Bucket.Holds (content page) limit (routed hash state.home page entries)

theorem shelves_fresh {most : Nat} (limited : most ≤ maxDirectoryDepth) :
    Shelves hash content next (Directory.freshState most) limit ([] : List (K × V)) where
  formed := formed_fresh limited
  empty _ := rfl
  issued := by
    rintro page ⟨valid, _, _, rfl⟩
    cases valid
  holds := by
    rintro page ⟨valid, _, _, rfl⟩
    cases valid

variable (shelves : Shelves hash content next state limit entries)

include shelves

theorem Shelves.congr {after : UInt32} (same : ∀ page, state.Mentions page → later page = content page)
    (more : next ≤ after) : Shelves hash later after state limit entries where
  formed := shelves.formed
  empty := shelves.empty
  issued page mentioned := UInt32.lt_of_lt_of_le (shelves.issued page mentioned) more
  holds page mentioned := by
    rw [same page mentioned]
    exact shelves.holds page mentioned

theorem Shelves.mentions_home (some_page : state.Mentions page) (key : K) :
    state.Mentions (state.home (hash key)) :=
  DirectoryState.mentions_home (shelves.formed.mentions_valid some_page _ (state.slot_lt _))

theorem Shelves.not_empty {list : List (K × V)} (some_page : state.Mentions page)
    (vacant : (state.bucket 0).isValid = false) : list = [] := by
  have valid := shelves.formed.mentions_valid some_page 0 state.size_pos
  rw [vacant] at valid
  cases valid

/-- A directory that sends every hash to the same bucket as another one has the same entries. -/
theorem Shelves.of_home {last : DirectoryState} (formed : last.Formed) (home : ∀ hash, last.home hash = state.home hash)
    (mentions : ∀ page, last.Mentions page → state.Mentions page) : Shelves hash content next last limit entries where
  formed := formed
  empty vacant := by
    have first : last.bucket (0 % last.size) = state.bucket (0 % state.size) := home 0
    rw [Nat.zero_mod, Nat.zero_mod] at first
    exact shelves.empty (first ▸ vacant)
  issued page mentioned := shelves.issued page (mentions page mentioned)
  holds page mentioned := by
    simp only [routed, home]
    exact shelves.holds page (mentions page mentioned)

theorem Shelves.first {list : List (K × V)} {most : Nat} {after : UInt32}
    (vacant : (state.bucket 0).isValid = false) (valid : page.isValid = true) (less : page.number < after)
    (holds : Bucket.Holds (later page) most list) :
    Shelves hash later after ((state.setBucket 0 page).setDepth 0 0) most list := by
  have flat : state.globalDepth = 0 := by
    rcases shelves.formed.vacant_or_full with ⟨flat, _⟩ | full
    · exact flat
    · rw [full 0 state.size_pos] at vacant
      cases vacant
  have single : state.size = 1 := by rw [size, flat, Nat.pow_zero]
  let linked := (state.setBucket 0 page).setDepth 0 0
  have only : ∀ other, linked.Mentions other → other = page := by
    rintro other ⟨_, slot, small, rfl⟩
    have zero : slot = 0 := by
      change slot < state.size at small
      omega
    rw [bucket_first, if_pos zero]
  have home : ∀ hash, linked.home hash = page := by
    intro hash
    have zero : hash.toNat % linked.size = 0 := by
      change hash.toNat % state.size = 0
      rw [single, Nat.mod_one]
    rw [DirectoryState.home, zero, bucket_first, if_pos rfl]
  refine ⟨shelves.formed.first flat valid, fun vacant => ?_, fun other mentioned => ?_, fun other mentioned => ?_⟩
  · rw [bucket_first, if_pos rfl, valid] at vacant
    cases vacant
  · rw [only other mentioned]
    exact less
  · rw [only other mentioned, routed, List.filter_eq_self.mpr fun entry _ => by simp [home, linked]]
    exact holds

theorem Shelves.rewritten {list : List (K × V)} {bytes : Page} (mentioned : state.Mentions page)
    (holds : Bucket.Holds bytes limit (routed hash state.home page list))
    (others : ∀ other, page ≠ other → routed hash state.home other list = routed hash state.home other entries) :
    Shelves hash (Function.update content page bytes) next state limit list where
  formed := shelves.formed
  empty := shelves.not_empty mentioned
  issued := shelves.issued
  holds other there := by
    by_cases same : page = other
    · rw [← same, Function.update_self]
      exact holds
    · rw [Function.update_of_ne (Ne.symm same), others other same]
      exact shelves.holds other there

theorem Shelves.divide {image : PageId} {slot : Nat} (small : slot < state.size)
    (less : state.depth slot < state.globalDepth) (valid : image.isValid = true) (issued : image.number < next)
    (fresh : ∀ page, state.Mentions page → page ≠ image) (mentioned : state.Mentions (state.bucket slot))
    (kept : Bucket.Holds (later (state.bucket slot)) limit
      ((routed hash state.home (state.bucket slot) entries).filter fun entry =>
        !(hash entry.1).toNat.testBit (state.depth slot)))
    (moved : Bucket.Holds (later image) limit
      ((routed hash state.home (state.bucket slot) entries).filter fun entry =>
        (hash entry.1).toNat.testBit (state.depth slot)))
    (same : ∀ page, state.Mentions page → page ≠ state.bucket slot → later page = content page) :
    Shelves hash later next (state.divide (state.bucket slot) image (state.depth slot)) limit entries := by
  have full := shelves.formed.mentions_valid mentioned
  have new : ∀ key, state.home (hash key) ≠ image := fun key =>
    fresh _ (shelves.mentions_home mentioned key)
  refine ⟨shelves.formed.divide small less valid (fun other little => fresh _ ⟨full other little, other, little, rfl⟩)
    full, fun vacant => ?_, fun page there => ?_, fun page there => ?_⟩
  · rw [(divide_slot _ image _ state.size_pos).1] at vacant
    split at vacant
    · rw [valid] at vacant
      cases vacant
    · exact shelves.empty vacant
  · rcases mentions_divide there with rfl | there
    · exact issued
    · exact shelves.issued page there
  · rcases mentions_divide there with rfl | there
    · rw [routed_divide_image less new]
      exact moved
    · have apart := fresh page there
      by_cases here : page = state.bucket slot
      · rw [here, routed_divide_kept less (fresh _ mentioned)]
        exact kept
      · rw [routed_divide_other less here apart, same page there here]
        exact shelves.holds page there

/-- Of two halves one is empty; the other takes its slots. -/
theorem Shelves.unite {depth x y : Nat} (buddies : state.Buddies depth x y)
    (mentioned : state.Mentions (state.bucket x))
    (nothing : routed hash state.home (state.bucket y) entries = []) :
    Shelves hash content next (state.unite (state.bucket x) (state.bucket y) depth) limit entries := by
  have full := shelves.formed.mentions_valid mentioned
  refine ⟨shelves.formed.unite buddies full, fun vacant => ?_, fun page there => ?_, fun page there => ?_⟩
  · rw [(unite_slot _ _ _ state.size_pos).1] at vacant
    split at vacant
    · rw [mentioned.1] at vacant
      cases vacant
    · exact shelves.empty vacant
  · exact shelves.issued page (mentions_unite mentioned there).1
  · rw [routed_unite nothing]
    exact shelves.holds page (mentions_unite mentioned there).1

end Table

end PagedIndex
