import Mathlib
import PagedIndex.Format.Directory
import PagedIndex.Proofs.Format.Bytes

/-!
# What directory pages say

A directory page is read as a state: two depths, and a depth and a bucket for every slot. Each operation on
the bytes is an operation on the state.
-/

namespace PagedIndex

theorem powerOfTwo_eq {depth : Nat} (small : depth < 32) : powerOfTwo depth = .ok (2 ^ depth) :=
  if_pos small

@[ext] structure DirectoryState where
  maxDepth : Nat
  globalDepth : Nat
  depth : Nat → Nat
  bucket : Nat → PageId

namespace DirectoryState

variable (state : DirectoryState)

def size : Nat := 2 ^ state.globalDepth

def setBucket (slot : Nat) (page : PageId) : DirectoryState :=
  { state with bucket := Function.update state.bucket slot page }

def setDepth (slot depth : Nat) : DirectoryState :=
  { state with depth := Function.update state.depth slot depth }

/-- The slots in `low ≤ slot < high` of a state, changed. -/
def mapSlots (low high : Nat) (depth : Nat → Nat) (bucket : Nat → PageId) : DirectoryState :=
  { state with
    depth := fun slot => if low ≤ slot ∧ slot < high then depth slot else state.depth slot
    bucket := fun slot => if low ≤ slot ∧ slot < high then bucket slot else state.bucket slot }

theorem mapSlots_none (low : Nat) (depth : Nat → Nat) (bucket : Nat → PageId) :
    state.mapSlots low low depth bucket = state := by
  ext slot
  · rfl
  · rfl
  · exact if_neg (by omega)
  · simp [mapSlots, show ¬(low ≤ slot ∧ slot < low) by omega]

theorem mapSlots_succ {low slot : Nat} (above : low ≤ slot) (depth : Nat → Nat) (bucket : Nat → PageId) :
    state.mapSlots low (slot + 1) depth bucket =
      ((state.mapSlots low slot depth bucket).setDepth slot (depth slot)).setBucket slot (bucket slot) := by
  ext other
  · rfl
  · rfl
  all_goals
    by_cases same : other = slot
    · simp [mapSlots, setDepth, setBucket, same, above]
    · have range : (low ≤ other ∧ other < slot + 1) ↔ (low ≤ other ∧ other < slot) := by omega
      simp [-Order.lt_add_one_iff, mapSlots, setDepth, setBucket, range, same]

theorem mapSlots_bucket (low slot : Nat) (depth : Nat → Nat) (bucket : Nat → PageId) :
    (state.mapSlots low slot depth bucket).bucket slot = state.bucket slot := if_neg (by omega)

theorem mapSlots_depth (low slot : Nat) (depth : Nat → Nat) (bucket : Nat → PageId) :
    (state.mapSlots low slot depth bucket).depth slot = state.depth slot := if_neg (by omega)

variable {state}

theorem setBucket_self {slot : Nat} {page : PageId} (same : state.bucket slot = page) :
    state.setBucket slot page = state := by
  subst same
  simp [setBucket]

theorem setDepth_self {slot depth : Nat} (same : state.depth slot = depth) :
    state.setDepth slot depth = state := by
  subst same
  simp [setDepth]

variable (state)

/-! ### Operations -/

def double : DirectoryState :=
  { state.mapSlots state.size (2 * state.size) (fun slot => state.depth (slot - state.size))
      (fun slot => state.bucket (slot - state.size)) with
    globalDepth := state.globalDepth + 1 }

def halve : DirectoryState :=
  { state.mapSlots (state.size / 2) state.size (fun _ => 0) (fun _ => .invalid) with
    globalDepth := state.globalDepth - 1 }

def CanHalve : Prop := 0 < state.globalDepth ∧ ∀ slot < state.size, state.depth slot < state.globalDepth

def divide (bucket image : PageId) (depth : Nat) : DirectoryState :=
  state.mapSlots 0 state.size
    (fun slot => if state.bucket slot = bucket then depth + 1 else state.depth slot)
    (fun slot => if state.bucket slot = bucket ∧ slot.testBit depth = true then image else state.bucket slot)

def unite (kept emptied : PageId) (depth : Nat) : DirectoryState :=
  state.mapSlots 0 state.size
    (fun slot => if state.bucket slot = kept ∨ state.bucket slot = emptied then depth else state.depth slot)
    (fun slot => if state.bucket slot = kept ∨ state.bucket slot = emptied then kept else state.bucket slot)

def buddy? (slot : Nat) (bucket : PageId) : Option (Nat × PageId) :=
  let depth := state.depth slot
  let image := slot ^^^ 2 ^ (depth - 1)
  if depth = 0 ∨ state.depth image ≠ depth ∨ (state.bucket image).isValid = false ∨ state.bucket image = bucket
  then none
  else some (depth, state.bucket image)

end DirectoryState

namespace Directory

open Buffer PageKind

/-! ### Pages as states -/

def stateOf (page : Page) : DirectoryState where
  maxDepth := (page.wordAt maxDepthAt).toNat
  globalDepth := (page.wordAt globalDepthAt).toNat
  depth slot := if slot < directorySlots then (page.byteAt (depthsAt + slot)).toNat else 0
  bucket slot := if slot < directorySlots then ⟨page.wordAt (bucketsAt + 4 * slot)⟩ else .invalid

theorem directorySlots_eq : directorySlots = 512 := rfl

theorem bucketsAt_eq : bucketsAt = 524 := rfl

variable {page : Page} {state : DirectoryState} {slot : Nat}

theorem depth_inside (small : slot < directorySlots) : depthsAt + slot < pageSize := by
  rw [directorySlots_eq] at small
  simp only [depthsAt, pageSize]
  omega

theorem bucket_inside (small : slot < directorySlots) : bucketsAt + 4 * slot + 4 ≤ pageSize := by
  rw [directorySlots_eq] at small
  simp only [bucketsAt_eq, pageSize]
  omega

/-- A directory page that says what a state says, and may be read as it. -/
structure Denotes (page : Page) (state : DirectoryState) : Prop where
  tagged : PageKind.directory.Tags page
  state_eq : stateOf page = state

theorem Denotes.written (denotes : Denotes page state) : page ≠ Page.zero := denotes.tagged.written nofun

theorem Denotes.ofBytes (denotes : Denotes page state) : Directory.ofBytes page = .ok ⟨page⟩ := by
  rw [Directory.ofBytes, bind_of_ok _ denotes.tagged.expect]
  rfl

theorem Denotes.maxDepth (denotes : Denotes page state) : Directory.maxDepth ⟨page⟩ = .ok state.maxDepth := by
  rw [Directory.maxDepth, word_eq (by decide), ← denotes.state_eq]
  rfl

theorem Denotes.globalDepth (denotes : Denotes page state) : Directory.globalDepth ⟨page⟩ = .ok state.globalDepth := by
  rw [Directory.globalDepth, word_eq (by decide), ← denotes.state_eq]
  rfl

theorem Denotes.depth (denotes : Denotes page state) (small : slot < directorySlots) :
    (page.byteAt (depthsAt + slot)).toNat = state.depth slot := by
  rw [← denotes.state_eq]
  exact (if_pos small).symm

theorem Denotes.bucket (denotes : Denotes page state) (small : slot < directorySlots) :
    page.wordAt (bucketsAt + 4 * slot) = (state.bucket slot).number := by
  rw [← denotes.state_eq]
  exact congrArg PageId.number (if_pos small).symm

/-! ### Writing slots -/

theorem Denotes.putBucket (denotes : Denotes page state) (small : slot < directorySlots) (bucket : PageId) :
    Denotes (page.putWord (bucketsAt + 4 * slot) bucket.number) (state.setBucket slot bucket) := by
  have inside := bucket_inside small
  rw [bucketsAt_eq] at inside ⊢
  refine ⟨(byteAt_putWord_apart inside (by omega)).trans denotes.tagged, ?_⟩
  rw [← denotes.state_eq]
  ext other
  · exact congrArg UInt32.toNat (wordAt_putWord_apart inside (by simp only [maxDepthAt]; omega))
  · exact congrArg UInt32.toNat (wordAt_putWord_apart inside (by simp only [globalDepthAt]; omega))
  · simp only [stateOf, DirectoryState.setBucket]
    split
    · rename_i little
      rw [directorySlots_eq] at little
      rw [byteAt_putWord_apart inside (by simp only [depthsAt]; omega)]
    · rfl
  · by_cases same : other = slot
    · subst same
      simp only [stateOf, DirectoryState.setBucket, Function.update_self, if_pos small, bucketsAt_eq,
        wordAt_putWord inside]
    · simp only [stateOf, DirectoryState.setBucket, Function.update_of_ne same]
      split
      · rw [bucketsAt_eq, wordAt_putWord_apart inside (by omega)]
      · rfl

theorem Denotes.putDepth (denotes : Denotes page state) (small : slot < directorySlots) {depth : Nat}
    (byte : depth < 256) :
    Denotes (page.putByte (depthsAt + slot) (UInt8.ofNat depth)) (state.setDepth slot depth) := by
  have inside := depth_inside small
  have little := small
  rw [directorySlots_eq] at little
  refine ⟨(byteAt_putByte inside _).trans ((if_neg (by simp [depthsAt])).trans denotes.tagged), ?_⟩
  rw [← denotes.state_eq]
  ext other
  · exact congrArg UInt32.toNat (wordAt_putByte_apart inside (by simp only [maxDepthAt, depthsAt]; omega))
  · exact congrArg UInt32.toNat (wordAt_putByte_apart inside (by simp only [globalDepthAt, depthsAt]; omega))
  · by_cases same : other = slot
    · subst same
      simp only [stateOf, DirectoryState.setDepth, Function.update_self, if_pos small, byteAt_putByte inside,
        if_true, UInt8.toNat_ofNat']
      omega
    · simp only [stateOf, DirectoryState.setDepth, Function.update_of_ne same, byteAt_putByte inside]
      rw [if_neg (show ¬ depthsAt + slot = depthsAt + other by omega)]
  · simp only [stateOf, DirectoryState.setDepth]
    split
    · rw [wordAt_putByte_apart inside (by rw [bucketsAt_eq]; simp only [depthsAt]; omega)]
    · rfl

theorem Denotes.putGlobalDepth (denotes : Denotes page state) {depth : Nat} (word : depth < 4294967296) :
    Denotes (page.putWord globalDepthAt (UInt32.ofNat depth)) { state with globalDepth := depth } := by
  have inside : globalDepthAt + 4 ≤ pageSize := by decide
  refine ⟨(byteAt_putWord_apart inside (by decide)).trans denotes.tagged, ?_⟩
  rw [← denotes.state_eq]
  ext other
  · exact congrArg UInt32.toNat (wordAt_putWord_apart inside (by decide))
  · simp only [stateOf, wordAt_putWord inside, UInt32.toNat_ofNat']
    omega
  · simp only [stateOf]
    split
    · rw [byteAt_putWord_apart inside (by simp only [globalDepthAt, depthsAt]; omega)]
    · rfl
  · simp only [stateOf]
    split
    · rw [wordAt_putWord_apart inside (by rw [bucketsAt_eq]; simp only [globalDepthAt]; omega)]
    · rfl

/-! ### Operations on a page -/

variable (denotes : Denotes page state)
include denotes

theorem Denotes.size (shallow : state.globalDepth ≤ maxDirectoryDepth) :
    Directory.size ⟨page⟩ = .ok state.size := by
  rw [Directory.size, bind_of_ok _ denotes.globalDepth]
  exact powerOfTwo_eq (by simp only [maxDirectoryDepth] at shallow; omega)

omit denotes in
theorem size_le (shallow : state.globalDepth ≤ maxDirectoryDepth) : state.size ≤ directorySlots :=
  Nat.pow_le_pow_right (by decide) shallow

theorem Denotes.slotFor (shallow : state.globalDepth ≤ maxDirectoryDepth) (hash : UInt32) :
    Directory.slotFor ⟨page⟩ hash = .ok (hash.toNat % state.size) := by
  rw [Directory.slotFor, bind_of_ok _ (denotes.size shallow)]
  rfl

theorem Denotes.requireSlot (shallow : state.globalDepth ≤ maxDirectoryDepth) (small : slot < state.size) :
    Directory.requireSlot ⟨page⟩ slot = .ok () := by
  rw [Directory.requireSlot, bind_of_ok _ (denotes.size shallow)]
  exact if_pos small

theorem Denotes.bucket_ok (shallow : state.globalDepth ≤ maxDirectoryDepth) (small : slot < state.size) :
    Directory.bucket ⟨page⟩ slot = .ok (state.bucket slot) := by
  have little := Nat.lt_of_lt_of_le small (size_le shallow)
  rw [Directory.bucket, bind_of_ok _ (denotes.requireSlot shallow small), word_eq (bucket_inside little)]
  exact congrArg (fun word => Except.ok (PageId.mk word)) (denotes.bucket little)

theorem Denotes.localDepth (shallow : state.globalDepth ≤ maxDirectoryDepth) (small : slot < state.size) :
    Directory.localDepth ⟨page⟩ slot = .ok (state.depth slot) := by
  have little := Nat.lt_of_lt_of_le small (size_le shallow)
  rw [Directory.localDepth, bind_of_ok _ (denotes.requireSlot shallow small), byte_eq (depth_inside little)]
  exact congrArg Except.ok (denotes.depth little)

theorem Denotes.localSize (shallow : state.globalDepth ≤ maxDirectoryDepth) (small : slot < state.size)
    (deep : state.depth slot ≤ state.globalDepth) : Directory.localSize ⟨page⟩ slot = .ok (2 ^ state.depth slot) := by
  rw [Directory.localSize, bind_of_ok _ (denotes.localDepth shallow small)]
  exact powerOfTwo_eq (by simp only [maxDirectoryDepth] at shallow; omega)

theorem Denotes.setBucket (shallow : state.globalDepth ≤ maxDirectoryDepth) (small : slot < state.size)
    (bucket : PageId) :
    ∃ later, Directory.setBucket ⟨page⟩ slot bucket = .ok ⟨later⟩ ∧
      Denotes later (state.setBucket slot bucket) := by
  have little := Nat.lt_of_lt_of_le small (size_le shallow)
  refine ⟨_, ?_, denotes.putBucket little bucket⟩
  rw [Directory.setBucket, bind_of_ok _ (denotes.requireSlot shallow small),
    bind_of_ok _ (setWord_eq (bucket_inside little))]
  rfl

theorem Denotes.setLocalDepth (shallow : state.globalDepth ≤ maxDirectoryDepth)
    (limited : state.maxDepth ≤ maxDirectoryDepth) (small : slot < state.size) {depth : Nat}
    (within : depth ≤ state.maxDepth) :
    ∃ later, Directory.setLocalDepth ⟨page⟩ slot depth = .ok ⟨later⟩ ∧
      Denotes later (state.setDepth slot depth) := by
  have little := Nat.lt_of_lt_of_le small (size_le shallow)
  have byte : depth < 256 := by
    simp only [maxDirectoryDepth] at limited
    omega
  refine ⟨_, ?_, denotes.putDepth little byte⟩
  rw [Directory.setLocalDepth, bind_of_ok _ (denotes.requireSlot shallow small),
    bind_of_ok _ denotes.maxDepth, if_neg (Nat.not_lt.mpr within), bind_of_ok _ (setByte_eq (depth_inside little))]
  rfl

theorem Denotes.copySlot {source target : Nat} (reads : source < directorySlots)
    (writes : target < directorySlots) :
    ∃ later, Directory.copySlot page source target = .ok later ∧
      Denotes later ((state.setDepth target (state.depth source)).setBucket target (state.bucket source)) := by
  have byte : state.depth source < 256 := by
    rw [← denotes.depth reads]
    exact UInt8.toNat_lt _
  have copied := denotes.putDepth writes byte
  have same : UInt8.ofNat (state.depth source) = page.byteAt (depthsAt + source) := by
    rw [← denotes.depth reads, UInt8.ofNat_toNat]
  refine ⟨_, ?_, copied.putBucket writes (state.bucket source)⟩
  rw [Directory.copySlot, bind_of_ok _ (byte_eq (depth_inside reads)),
    bind_of_ok _ (setByte_eq (depth_inside writes)), ← same, bind_of_ok _ (word_eq (bucket_inside reads)),
    copied.bucket reads, setWord_eq (bucket_inside writes)]
  rfl

theorem Denotes.clearSlot (small : slot < directorySlots) :
    ∃ later, Directory.clearSlot page slot = .ok later ∧
      Denotes later ((state.setDepth slot 0).setBucket slot .invalid) := by
  have cleared : Denotes (page.putByte (depthsAt + slot) 0) (state.setDepth slot 0) :=
    denotes.putDepth small (by decide)
  refine ⟨_, ?_, cleared.putBucket small .invalid⟩
  rw [Directory.clearSlot, bind_of_ok _ (setByte_eq (depth_inside small)), setWord_eq (bucket_inside small)]

/-! ### Growing and shrinking -/

omit denotes in
theorem double_size_le (deeper : state.globalDepth < maxDirectoryDepth) : 2 * state.size ≤ directorySlots :=
  calc 2 * state.size = 2 ^ (state.globalDepth + 1) := by
        rw [DirectoryState.size, Nat.pow_succ, Nat.mul_comm]
    _ ≤ 2 ^ maxDirectoryDepth := Nat.pow_le_pow_right (by decide) deeper

omit denotes in
theorem double_half_size (some_depth : 0 < state.globalDepth) : 2 * 2 ^ (state.globalDepth - 1) = state.size := by
  rw [DirectoryState.size, ← Nat.pow_succ']
  congr 1
  omega

theorem Denotes.copyUpper {half : Nat} (little : 2 * half ≤ directorySlots) :
    ∃ last, foldUp (fun slot bytes => Directory.copySlot bytes (slot - half) slot) half half page = .ok last ∧
      Denotes last (state.mapSlots half (half + half) (fun slot => state.depth (slot - half))
        fun slot => state.bucket (slot - half)) := by
  refine foldUp_ok (fun slot bytes => Denotes bytes (state.mapSlots half slot
    (fun slot => state.depth (slot - half)) fun slot => state.bucket (slot - half))) ?_
    fun slot bytes above below kept => ?_
  · rwa [DirectoryState.mapSlots_none]
  · have reads : slot - half < directorySlots := by omega
    obtain ⟨next, done, copied⟩ := kept.copySlot reads (by omega : slot < directorySlots)
    refine ⟨next, done, ?_⟩
    have source : ¬(half ≤ slot - half ∧ slot - half < slot) := by omega
    rw [state.mapSlots_succ above]
    simpa only [DirectoryState.mapSlots, if_neg source] using copied

theorem Denotes.clearUpper {half : Nat} (little : 2 * half ≤ directorySlots) :
    ∃ last, foldUp (fun slot bytes => Directory.clearSlot bytes slot) half half page = .ok last ∧
      Denotes last (state.mapSlots half (half + half) (fun _ => 0) fun _ => .invalid) := by
  refine foldUp_ok (fun slot bytes => Denotes bytes (state.mapSlots half slot (fun _ => 0) fun _ => .invalid)) ?_
    fun slot bytes above below kept => ?_
  · rwa [DirectoryState.mapSlots_none]
  · obtain ⟨next, done, cleared⟩ := kept.clearSlot (by omega : slot < directorySlots)
    refine ⟨next, done, ?_⟩
    rwa [state.mapSlots_succ above]

theorem Denotes.double (room : state.globalDepth < state.maxDepth) (limited : state.maxDepth ≤ maxDirectoryDepth) :
    ∃ later, Directory.double ⟨page⟩ = .ok ⟨later⟩ ∧ Denotes later state.double := by
  have deeper : state.globalDepth < maxDirectoryDepth := Nat.lt_of_lt_of_le room limited
  have small : state.globalDepth + 1 < 32 := by
    simp only [maxDirectoryDepth] at deeper
    omega
  obtain ⟨last, copied, ends⟩ := denotes.copyUpper (double_size_le deeper)
  have grown := ends.putGlobalDepth (by omega : state.globalDepth + 1 < 4294967296)
  refine ⟨_, ?_, by rwa [← Nat.two_mul] at grown⟩
  have inside : globalDepthAt + 4 ≤ pageSize := by decide
  have half : powerOfTwo state.globalDepth = .ok state.size := powerOfTwo_eq (by omega)
  rw [Directory.double, bind_of_ok _ denotes.globalDepth, bind_of_ok _ denotes.maxDepth,
    if_neg (Nat.not_le.mpr room)]
  change (powerOfTwo state.globalDepth >>= fun half => _) = _
  rw [bind_of_ok _ half, bind_of_ok _ copied, bind_of_ok _ (setWord_eq inside)]
  rfl

theorem Denotes.halve (some_depth : 0 < state.globalDepth) (shallow : state.globalDepth ≤ maxDirectoryDepth) :
    ∃ later, Directory.halve ⟨page⟩ = .ok ⟨later⟩ ∧ Denotes later state.halve := by
  have small : state.globalDepth < 32 := by
    simp only [maxDirectoryDepth] at shallow
    omega
  have whole := double_half_size some_depth
  have half : state.size / 2 = 2 ^ (state.globalDepth - 1) := by omega
  have little : 2 * (state.size / 2) ≤ directorySlots := by
    rw [half, whole]
    exact size_le shallow
  obtain ⟨last, cleared, ends⟩ := denotes.clearUpper little
  rw [show state.size / 2 + state.size / 2 = state.size by omega] at ends
  have shrunk := ends.putGlobalDepth (by omega : state.globalDepth - 1 < 4294967296)
  refine ⟨_, ?_, shrunk⟩
  have inside : globalDepthAt + 4 ≤ pageSize := by decide
  rw [Directory.halve, bind_of_ok _ denotes.globalDepth, if_neg (by omega)]
  change (powerOfTwo (state.globalDepth - 1) >>= fun half => _) = _
  rw [bind_of_ok _ (powerOfTwo_eq (by omega)), ← half, bind_of_ok _ cleared, bind_of_ok _ (setWord_eq inside)]
  rfl

theorem Denotes.canHalve (shallow : state.globalDepth ≤ maxDirectoryDepth) :
    ∃ answer, Directory.canHalve ⟨page⟩ = .ok answer ∧ (answer = true ↔ state.CanHalve) := by
  rw [Directory.canHalve, bind_of_ok _ denotes.globalDepth]
  by_cases none : state.globalDepth = 0
  · rw [if_pos none]
    exact ⟨false, rfl, iff_of_false nofun fun can => absurd none (Nat.ne_of_gt can.1)⟩
  · rw [if_neg none, bind_of_ok _ (denotes.size shallow)]
    obtain ⟨answer, done, all⟩ := allUp_ok (fun slot => decide (state.depth slot < state.globalDepth))
      fun slot (_ : 0 ≤ slot) (small : slot < 0 + state.size) =>
        bind_of_ok (fun depth => return decide (depth < state.globalDepth))
          (denotes.localDepth shallow (by omega))
    refine ⟨answer, done, fun yes => ⟨Nat.pos_of_ne_zero none, fun slot small => ?_⟩, fun can => ?_⟩
    · simpa using all.mp yes slot (Nat.zero_le _) (by omega)
    · exact all.mpr fun slot _ small => by simpa using can.2 slot (by omega)

/-- What halving a directory again and again comes to. -/
inductive Shrinks : DirectoryState → DirectoryState → Prop where
  | done (state : DirectoryState) : Shrinks state state
  | halved {state last : DirectoryState} (can : state.CanHalve) (rest : Shrinks state.halve last) :
      Shrinks state last

theorem Denotes.halveFor (shallow : state.globalDepth ≤ maxDirectoryDepth) {rounds : Nat}
    (enough : state.globalDepth ≤ rounds) : ∃ later last, Directory.halveFor rounds ⟨page⟩ = .ok ⟨later⟩ ∧
      Denotes later last ∧ Shrinks state last ∧ ¬ last.CanHalve := by
  induction rounds generalizing page state with
  | zero =>
    refine ⟨page, state, rfl, denotes, .done state, fun can => ?_⟩
    exact absurd can.1 (Nat.not_lt.mpr enough)
  | succ rounds ih =>
    obtain ⟨answer, asked, can⟩ := denotes.canHalve shallow
    rw [Directory.halveFor, bind_of_ok _ asked]
    cases answer with
    | false => exact ⟨page, state, rfl, denotes, .done state, mt can.mpr nofun⟩
    | true =>
      have halves := can.mp rfl
      obtain ⟨next, halved, denotes_next⟩ := denotes.halve halves.1 shallow
      have shallower : state.halve.globalDepth ≤ maxDirectoryDepth := Nat.le_trans (Nat.sub_le ..) shallow
      obtain ⟨later, last, done, ends, rest, least⟩ := ih denotes_next shallower (Nat.sub_le_of_le_add enough)
      refine ⟨later, last, ?_, ends, .halved halves rest, least⟩
      rw [if_pos rfl, bind_of_ok _ halved, done]

theorem Denotes.halveFully (shallow : state.globalDepth ≤ maxDirectoryDepth) :
    ∃ later last, Directory.halveFully ⟨page⟩ = .ok ⟨later⟩ ∧ Denotes later last ∧ Shrinks state last ∧
      ¬ last.CanHalve := by
  rw [Directory.halveFully, bind_of_ok _ denotes.globalDepth]
  exact denotes.halveFor shallow (Nat.le_refl _)

/-! ### Splitting and uniting -/

/-- A loop over all slots that changes each slot by what stood in it before. -/
theorem Denotes.mapSlots {step : Nat → Directory pageSize → Outcome (Directory pageSize)} {size : Nat}
    (depth : Nat → Nat) (bucket : Nat → PageId)
    (each : ∀ slot bytes, slot < size → Denotes bytes (state.mapSlots 0 slot depth bucket) →
      ∃ next, step slot ⟨bytes⟩ = .ok ⟨next⟩ ∧
        Denotes next (((state.mapSlots 0 slot depth bucket).setDepth slot (depth slot)).setBucket slot (bucket slot))) :
    ∃ last, foldUp step size 0 ⟨page⟩ = .ok ⟨last⟩ ∧ Denotes last (state.mapSlots 0 size depth bucket) := by
  have loop : ∃ last, foldUp step size 0 ⟨page⟩ = .ok last ∧
      Denotes last.bytes (state.mapSlots 0 (0 + size) depth bucket) := by
    refine foldUp_ok
      (fun slot (directory : Directory pageSize) => Denotes directory.bytes (state.mapSlots 0 slot depth bucket))
      ?_ fun slot directory _ below kept => ?_
    · rwa [DirectoryState.mapSlots_none]
    · obtain ⟨next, done, further⟩ := each slot directory.bytes (by omega) kept
      exact ⟨⟨next⟩, done, by rwa [state.mapSlots_succ (Nat.zero_le slot)]⟩
  obtain ⟨⟨last⟩, done, ends⟩ := loop
  exact ⟨last, done, by rwa [Nat.zero_add] at ends⟩

theorem Denotes.divide (shallow : state.globalDepth ≤ maxDirectoryDepth)
    (limited : state.maxDepth ≤ maxDirectoryDepth) (bucket image : PageId) {depth : Nat}
    (within : depth + 1 ≤ state.maxDepth) :
    ∃ later, Directory.divide ⟨page⟩ bucket image depth = .ok ⟨later⟩ ∧
      Denotes later (state.divide bucket image depth) := by
  rw [Directory.divide, bind_of_ok _ (denotes.size shallow)]
  refine denotes.mapSlots _ _ fun slot bytes small kept => ?_
  rw [bind_of_ok _ (kept.bucket_ok shallow small), state.mapSlots_bucket]
  by_cases here : state.bucket slot = bucket
  · obtain ⟨deep, done, deepened⟩ := kept.setLocalDepth shallow limited small within
    rw [if_pos here, bind_of_ok _ done, if_pos here]
    by_cases bit : slot.testBit depth = true
    · obtain ⟨next, moved, further⟩ := deepened.setBucket shallow small image
      exact ⟨next, by rw [if_pos bit, moved], by rwa [if_pos ⟨here, bit⟩]⟩
    · refine ⟨deep, by rw [if_neg bit]; rfl, ?_⟩
      rwa [if_neg fun both => bit both.2, DirectoryState.setBucket_self]
      exact if_neg (show ¬(0 ≤ slot ∧ slot < slot) by omega)
  · refine ⟨bytes, by rw [if_neg here]; rfl, ?_⟩
    rwa [if_neg here, if_neg fun both => here both.1, DirectoryState.setDepth_self (state.mapSlots_depth ..),
      DirectoryState.setBucket_self (state.mapSlots_bucket ..)]

theorem Denotes.unite (shallow : state.globalDepth ≤ maxDirectoryDepth)
    (limited : state.maxDepth ≤ maxDirectoryDepth) (kept emptied : PageId) {depth : Nat}
    (within : depth ≤ state.maxDepth) :
    ∃ later, Directory.unite ⟨page⟩ kept emptied depth = .ok ⟨later⟩ ∧
      Denotes later (state.unite kept emptied depth) := by
  rw [Directory.unite, bind_of_ok _ (denotes.size shallow)]
  refine denotes.mapSlots _ _ fun slot bytes small so_far => ?_
  rw [bind_of_ok _ (so_far.bucket_ok shallow small), state.mapSlots_bucket]
  by_cases here : state.bucket slot = kept ∨ state.bucket slot = emptied
  · obtain ⟨moved, done, linked⟩ := so_far.setBucket shallow small kept
    obtain ⟨next, flat, further⟩ := linked.setLocalDepth shallow limited small within
    refine ⟨next, ?_, ?_⟩
    · rw [if_pos here, bind_of_ok _ done, flat]
    · rw [if_pos here, if_pos here]
      exact further
  · refine ⟨bytes, by rw [if_neg here]; rfl, ?_⟩
    rwa [if_neg here, if_neg here, DirectoryState.setDepth_self (state.mapSlots_depth ..),
      DirectoryState.setBucket_self (state.mapSlots_bucket ..)]

theorem Denotes.buddy? (shallow : state.globalDepth ≤ maxDirectoryDepth) (small : slot < state.size)
    (deep : state.depth slot ≤ state.globalDepth) (bucket : PageId) :
    Directory.buddy? ⟨page⟩ slot bucket = .ok (state.buddy? slot bucket) := by
  rw [Directory.buddy?, bind_of_ok _ (denotes.localDepth shallow small)]
  by_cases none : state.depth slot = 0
  · rw [if_pos none, DirectoryState.buddy?, if_pos (.inl none)]
    rfl
  · have less : state.depth slot - 1 < 32 := by
      simp only [maxDirectoryDepth] at shallow
      omega
    have image : slot ^^^ 2 ^ (state.depth slot - 1) < state.size := by
      refine Nat.xor_lt_two_pow small (Nat.pow_lt_pow_right (by decide) ?_)
      omega
    rw [if_neg none]
    change (powerOfTwo (state.depth slot - 1) >>= fun half => _) = _
    rw [bind_of_ok _ (powerOfTwo_eq less), bind_of_ok _ (denotes.bucket_ok shallow image),
      bind_of_ok _ (denotes.localDepth shallow image), DirectoryState.buddy?]
    by_cases other : state.depth (slot ^^^ 2 ^ (state.depth slot - 1)) ≠ state.depth slot ∨
        (state.bucket (slot ^^^ 2 ^ (state.depth slot - 1))).isValid = false ∨
        state.bucket (slot ^^^ 2 ^ (state.depth slot - 1)) = bucket
    · rw [if_pos (by simpa using other), if_pos (.inr other)]
      rfl
    · rw [if_neg (by simpa using other), if_neg (by simpa [none] using other)]
      rfl

omit denotes in
/-- The state of a directory without a bucket. -/
def freshState (maxDepth : Nat) : DirectoryState where
  maxDepth
  globalDepth := 0
  depth _ := 0
  bucket _ := .invalid

omit denotes in
theorem freshByte_zero (maxDepth : Nat) {i : Nat} (behind : maxDepthAt < i) (before : i < bucketsAt) :
    freshByte maxDepth i = 0 := by
  rw [freshByte, if_neg (by omega), if_neg (by omega), if_pos before]

omit denotes in
theorem freshByte_ones (maxDepth : Nat) {i : Nat} (behind : bucketsAt ≤ i) : freshByte maxDepth i = 0xFF := by
  rw [bucketsAt_eq] at behind
  rw [freshByte, if_neg (by omega), if_neg (by simp only [maxDepthAt]; omega),
    if_neg (by rw [bucketsAt_eq]; omega)]

omit denotes in
theorem format_ok (page : Page) {maxDepth : Nat} (limited : maxDepth ≤ maxDirectoryDepth) :
    ∃ later, Directory.format page maxDepth = .ok ⟨later⟩ ∧ Denotes later (freshState maxDepth) := by
  have reach : extent ≤ pageSize := by decide
  have extent_eq : extent = 2572 := rfl
  have byte : maxDepth < 256 := by
    simp only [maxDirectoryDepth] at limited
    omega
  let later : Page := Vector.mapFinIdx page fun i byte _ => if i < extent then freshByte maxDepth i else byte
  have bytes : ∀ i < extent, later.byteAt i = freshByte maxDepth i := fun i small =>
    (byteAt_mapFinIdx (freshByte maxDepth) extent i reach).trans (if_pos small)
  have limit : later.wordAt maxDepthAt = UInt32.ofNat maxDepth :=
    wordAt_of_first byte (bytes maxDepthAt (by decide)) fun i above small => by
      rw [bytes _ (by simp only [maxDepthAt]; omega),
        freshByte_zero _ (by omega) (by simp only [maxDepthAt, bucketsAt_eq]; omega)]
  have depth : later.wordAt globalDepthAt = UInt32.ofNat 0 := wordAt_of_bytes fun i small => by
    rw [bytes _ (by simp only [globalDepthAt]; omega), Nat.zero_div]
    exact freshByte_zero _ (by simp only [maxDepthAt, globalDepthAt]; omega)
      (by simp only [globalDepthAt, bucketsAt_eq]; omega)
  have vacant : ∀ slot < directorySlots, later.wordAt (bucketsAt + 4 * slot) = UInt32.ofNat 4294967295 := by
    intro slot little
    rw [directorySlots_eq] at little
    refine wordAt_of_ones fun i small => ?_
    rw [bytes _ (by rw [bucketsAt_eq]; omega), freshByte_ones _ (by omega)]
  refine ⟨later, ?_, bytes 0 (by decide), ?_⟩
  · rw [format, if_neg (Nat.not_lt.mpr limited), if_neg (Nat.not_lt.mpr reach)]
    rfl
  · ext slot
    · refine (congrArg UInt32.toNat limit).trans ?_
      rw [UInt32.toNat_ofNat']
      exact Nat.mod_eq_of_lt (by omega)
    · exact congrArg UInt32.toNat depth
    · simp only [stateOf, freshState]
      split
      · rename_i little
        rw [directorySlots_eq] at little
        rw [bytes _ (by simp only [depthsAt]; omega),
          freshByte_zero _ (by simp only [maxDepthAt, depthsAt]; omega)
            (by rw [bucketsAt_eq]; simp only [depthsAt]; omega)]
        rfl
      · rfl
    · simp only [stateOf, freshState]
      split
      · rename_i little
        rw [vacant slot little]
        rfl
      · rfl

end Directory

end PagedIndex
