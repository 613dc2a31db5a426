import Mathlib
import PagedIndex.Proofs.Format.DirectoryForm

/-!
# Edits of directory pages

A directory page is formatted once and then edited: slots are set, the directory is doubled and halved. An edit
succeeds if it is in range, does to the state of the page what it says, and writes to the global depth and to the
slots only. With the bytes that no edit writes, the state makes up the whole page.
-/

namespace PagedIndex.Directory

open Buffer PageKind

variable {page later : Page} {state : DirectoryState} {slot : Nat} {directory next : Directory pageSize}

inductive Edit where
  | setBucket (slot : Nat) (page : PageId)
  | setLocalDepth (slot depth : Nat)
  | deepen (slot : Nat)
  | flatten (slot : Nat)
  | double
  | halve

namespace Edit

def run {n : Nat} (directory : Directory n) : Edit → Outcome (Directory n)
  | setBucket slot page => directory.setBucket slot page
  | setLocalDepth slot depth => directory.setLocalDepth slot depth
  | deepen slot => directory.deepen slot
  | flatten slot => directory.flatten slot
  | double => directory.double
  | halve => directory.halve

/-- What an edit asks of the state that it finds. -/
def InRange (state : DirectoryState) : Edit → Prop
  | setBucket slot _ => slot < state.size
  | setLocalDepth slot depth => slot < state.size ∧ depth ≤ state.maxDepth
  | deepen slot => slot < state.size ∧ state.depth slot + 1 ≤ state.maxDepth
  | flatten slot => slot < state.size ∧ 0 < state.depth slot ∧ state.depth slot - 1 ≤ state.maxDepth
  | double => state.globalDepth < state.maxDepth
  | halve => 0 < state.globalDepth

def apply (state : DirectoryState) : Edit → DirectoryState
  | setBucket slot page => state.setBucket slot page
  | setLocalDepth slot depth => state.setDepth slot depth
  | deepen slot => state.setDepth slot (state.depth slot + 1)
  | flatten slot => state.setDepth slot (state.depth slot - 1)
  | double => state.double
  | halve => state.halve

end Edit

/-! ### Edits in range -/

section InRange

variable (denotes : Denotes page state) (tidy : state.Tidy)

include denotes tidy

theorem Denotes.edited (edit : Edit) (fits : edit.InRange state) :
    ∃ later, edit.run ⟨page⟩ = .ok ⟨later⟩ ∧ Denotes later (edit.apply state) := by
  have shallow := tidy.shallow_max
  cases edit with
  | setBucket slot bucket => exact denotes.setBucket shallow fits bucket
  | setLocalDepth slot depth => exact denotes.setLocalDepth shallow tidy.limited fits.1 fits.2
  | deepen slot =>
    obtain ⟨small, within⟩ := fits
    obtain ⟨later, done, ends⟩ := denotes.setLocalDepth shallow tidy.limited small within
    refine ⟨later, ?_, ends⟩
    rw [Edit.run, deepen, bind_of_ok _ (denotes.localDepth shallow small), done]
  | flatten slot =>
    obtain ⟨small, positive, within⟩ := fits
    obtain ⟨later, done, ends⟩ := denotes.setLocalDepth shallow tidy.limited small within
    refine ⟨later, ?_, ends⟩
    rw [Edit.run, flatten, bind_of_ok _ (denotes.localDepth shallow small), if_neg (Nat.ne_of_gt positive), done]
  | double => exact denotes.double fits tidy.limited
  | halve => exact denotes.halve fits shallow

theorem Denotes.small_of_ok {α : Type} {rest : Unit → Outcome α} {answer : α}
    (done : (Directory.requireSlot ⟨page⟩ slot >>= rest) = .ok answer) : slot < state.size := by
  obtain ⟨_, required, _⟩ := ok_of_bind done
  rw [Directory.requireSlot, bind_of_ok _ (denotes.size tidy.shallow_max)] at required
  by_contra large
  rw [if_neg large] at required
  cases required

theorem Denotes.within_of_ok {depth : Nat} (done : Directory.setLocalDepth ⟨page⟩ slot depth = .ok next) :
    slot < state.size ∧ depth ≤ state.maxDepth := by
  have small := denotes.small_of_ok tidy done
  rw [Directory.setLocalDepth, bind_of_ok _ (denotes.requireSlot tidy.shallow_max small),
    bind_of_ok _ denotes.maxDepth] at done
  refine ⟨small, Nat.not_lt.mp ?_⟩
  intro above
  rw [if_pos above] at done
  cases done

theorem Denotes.inRange_of_ok (edit : Edit) (done : edit.run ⟨page⟩ = .ok next) : edit.InRange state := by
  have shallow := tidy.shallow_max
  cases edit with
  | setBucket slot bucket => exact denotes.small_of_ok tidy done
  | setLocalDepth slot depth => exact denotes.within_of_ok tidy done
  | deepen slot =>
    rw [Edit.run, deepen] at done
    obtain ⟨depth, read, written⟩ := ok_of_bind done
    have small := denotes.small_of_ok tidy read
    rw [denotes.localDepth shallow small] at read
    cases read
    exact ⟨small, (denotes.within_of_ok tidy written).2⟩
  | flatten slot =>
    rw [Edit.run, flatten] at done
    obtain ⟨depth, read, written⟩ := ok_of_bind done
    have small := denotes.small_of_ok tidy read
    rw [denotes.localDepth shallow small] at read
    cases read
    split at written
    · cases written
    · rename_i positive
      exact ⟨small, Nat.pos_of_ne_zero positive, (denotes.within_of_ok tidy written).2⟩
  | double =>
    rw [Edit.run, Directory.double, bind_of_ok _ denotes.globalDepth, bind_of_ok _ denotes.maxDepth] at done
    apply Nat.not_le.mp
    intro full
    rw [if_pos full] at done
    cases done
  | halve =>
    rw [Edit.run, Directory.halve, bind_of_ok _ denotes.globalDepth] at done
    apply Nat.pos_of_ne_zero
    intro flat
    rw [if_pos flat] at done
    cases done

end InRange

theorem tidy_setBucket (tidy : state.Tidy) (small : slot < state.size) (bucket : PageId) :
    (state.setBucket slot bucket).Tidy where
  limited := tidy.limited
  shallow := tidy.shallow
  cleared other large := by
    have apart : other ≠ slot := by
      rintro rfl
      exact Nat.not_lt.mpr large small
    simpa [DirectoryState.setBucket, apart] using tidy.cleared other large

theorem tidy_setDepth (tidy : state.Tidy) (small : slot < state.size) (depth : Nat) :
    (state.setDepth slot depth).Tidy where
  limited := tidy.limited
  shallow := tidy.shallow
  cleared other large := by
    have apart : other ≠ slot := by
      rintro rfl
      exact Nat.not_lt.mpr large small
    simpa [DirectoryState.setDepth, apart] using tidy.cleared other large

theorem Edit.tidy {edit : Edit} (tidy : state.Tidy) (fits : edit.InRange state) : (edit.apply state).Tidy := by
  cases edit with
  | setBucket slot bucket => exact tidy_setBucket tidy fits bucket
  | setLocalDepth slot depth => exact tidy_setDepth tidy fits.1 depth
  | deepen slot => exact tidy_setDepth tidy fits.1 _
  | flatten slot => exact tidy_setDepth tidy fits.1 _
  | double => exact tidy.double fits
  | halve => exact tidy.halve fits

theorem tidy_fresh {maxDepth : Nat} (limited : maxDepth ≤ maxDirectoryDepth) : (freshState maxDepth).Tidy :=
  (DirectoryState.formed_fresh limited).tidy

/-! ### Bytes that edits write -/

/-- The bytes of the global depth and of the slots. -/
def Editable (i : Nat) : Prop := globalDepthAt ≤ i ∧ i < extent

theorem extent_eq : extent = 2572 := rfl

theorem editable_depth (small : slot < directorySlots) : Editable (depthsAt + slot) := by
  rw [directorySlots_eq] at small
  simp only [Editable, globalDepthAt, depthsAt, extent_eq]
  omega

theorem editable_bucket (small : slot < directorySlots) {i : Nat} (above : bucketsAt + 4 * slot ≤ i)
    (below : i < bucketsAt + 4 * slot + 4) : Editable i := by
  rw [directorySlots_eq] at small
  rw [bucketsAt_eq] at above below
  simp only [Editable, globalDepthAt, extent_eq]
  omega

theorem editable_globalDepth {i : Nat} (above : globalDepthAt ≤ i) (below : i < globalDepthAt + 4) : Editable i := by
  simp only [Editable, globalDepthAt, extent_eq] at above below ⊢
  omega

theorem spares_copySlot {source target : Nat} (small : target < directorySlots)
    (done : Directory.copySlot page source target = .ok later) : Spares Editable page later := by
  unfold Directory.copySlot at done
  obtain ⟨byte, _, done⟩ := ok_of_bind done
  obtain ⟨middle, first, done⟩ := ok_of_bind done
  obtain ⟨word, _, second⟩ := ok_of_bind done
  exact (Spares.setByte first (editable_depth small)).trans (.setWord second fun i => editable_bucket small)

theorem spares_clearSlot (small : slot < directorySlots) (done : Directory.clearSlot page slot = .ok later) :
    Spares Editable page later := by
  unfold Directory.clearSlot at done
  obtain ⟨middle, first, second⟩ := ok_of_bind done
  exact (Spares.setByte first (editable_depth small)).trans (.setWord second fun i => editable_bucket small)

section Spares

variable (denotes : Denotes page state) (tidy : state.Tidy)

include denotes tidy

theorem Denotes.spares_setBucket {bucket : PageId} (done : Directory.setBucket ⟨page⟩ slot bucket = .ok next) :
    Spares Editable page next.bytes := by
  have small := Nat.lt_of_lt_of_le (denotes.small_of_ok tidy done) (size_le tidy.shallow_max)
  unfold Directory.setBucket at done
  obtain ⟨_, _, done⟩ := ok_of_bind done
  obtain ⟨bytes, written, done⟩ := ok_of_bind done
  cases done
  exact .setWord written fun i => editable_bucket small

theorem Denotes.spares_setLocalDepth {depth : Nat} (done : Directory.setLocalDepth ⟨page⟩ slot depth = .ok next) :
    Spares Editable page next.bytes := by
  obtain ⟨small, within⟩ := denotes.within_of_ok tidy done
  rw [Directory.setLocalDepth, bind_of_ok _ (denotes.requireSlot tidy.shallow_max small),
    bind_of_ok _ denotes.maxDepth, if_neg (Nat.not_lt.mpr within)] at done
  obtain ⟨bytes, written, done⟩ := ok_of_bind done
  cases done
  exact .setByte written (editable_depth (Nat.lt_of_lt_of_le small (size_le tidy.shallow_max)))

theorem Denotes.spares_double (done : Directory.double ⟨page⟩ = .ok next) : Spares Editable page next.bytes := by
  have room : state.globalDepth < state.maxDepth := denotes.inRange_of_ok tidy .double done
  have deeper : state.globalDepth < maxDirectoryDepth := Nat.lt_of_lt_of_le room tidy.limited
  have small : state.globalDepth < 32 := Nat.lt_trans deeper (by decide)
  rw [Directory.double, bind_of_ok _ denotes.globalDepth, bind_of_ok _ denotes.maxDepth,
    if_neg (Nat.not_le.mpr room)] at done
  change (powerOfTwo state.globalDepth >>= fun half => _) = _ at done
  rw [bind_of_ok _ (powerOfTwo_eq small)] at done
  obtain ⟨last, copied, done⟩ := ok_of_bind done
  obtain ⟨bytes, written, done⟩ := ok_of_bind done
  cases done
  have whole := double_size_le deeper
  refine Spares.trans (foldUp_related (Spares.refl _) Spares.trans ?_ copied)
    (.setWord written fun i => editable_globalDepth)
  intro i value next _ below step
  unfold DirectoryState.size at whole
  exact spares_copySlot (by omega) step

theorem Denotes.spares_halve (done : Directory.halve ⟨page⟩ = .ok next) : Spares Editable page next.bytes := by
  have positive : 0 < state.globalDepth := denotes.inRange_of_ok tidy .halve done
  have shallow := tidy.shallow_max
  have small : state.globalDepth - 1 < 32 := by
    simp only [maxDirectoryDepth] at shallow
    omega
  rw [Directory.halve, bind_of_ok _ denotes.globalDepth, if_neg (Nat.ne_of_gt positive)] at done
  change (powerOfTwo (state.globalDepth - 1) >>= fun half => _) = _ at done
  rw [bind_of_ok _ (powerOfTwo_eq small)] at done
  obtain ⟨last, cleared, done⟩ := ok_of_bind done
  obtain ⟨bytes, written, done⟩ := ok_of_bind done
  cases done
  have whole := size_le shallow
  rw [← double_half_size positive] at whole
  refine Spares.trans (foldUp_related (Spares.refl _) Spares.trans ?_ cleared)
    (.setWord written fun i => editable_globalDepth)
  intro i value next _ below step
  exact spares_clearSlot (by omega) step

theorem Denotes.spares {edit : Edit} (done : edit.run ⟨page⟩ = .ok next) : Spares Editable page next.bytes := by
  cases edit with
  | setBucket slot bucket => exact denotes.spares_setBucket tidy done
  | setLocalDepth slot depth => exact denotes.spares_setLocalDepth tidy done
  | deepen slot =>
    obtain ⟨depth, _, written⟩ := ok_of_bind done
    exact denotes.spares_setLocalDepth tidy written
  | flatten slot =>
    obtain ⟨depth, _, written⟩ := ok_of_bind done
    split at written
    · cases written
    · exact denotes.spares_setLocalDepth tidy written
  | double => exact denotes.spares_double tidy done
  | halve => exact denotes.spares_halve tidy done

end Spares

/-! ### Fields -/

inductive Field where
  | globalDepth
  | depth (slot : Nat)
  | bucket (slot : Nat)

namespace Field

/-- The bytes in which a field stands. -/
def Covers : Field → Nat → Prop
  | globalDepth, i => globalDepthAt ≤ i ∧ i < globalDepthAt + 4
  | depth slot, i => slot < directorySlots ∧ i = depthsAt + slot
  | bucket slot, i => slot < directorySlots ∧ bucketsAt + 4 * slot ≤ i ∧ i < bucketsAt + 4 * slot + 4

/-- Two states that say the same in a field. -/
def Same (state other : DirectoryState) : Field → Prop
  | globalDepth => other.globalDepth = state.globalDepth
  | depth slot => other.depth slot = state.depth slot
  | bucket slot => other.bucket slot = state.bucket slot

theorem same_refl (state : DirectoryState) (field : Field) : field.Same state state := by
  cases field <;> rfl

theorem exists_covers {i : Nat} (editable : Editable i) : ∃ field : Field, field.Covers i := by
  obtain ⟨above, below⟩ := editable
  simp only [globalDepthAt, extent_eq] at above below
  by_cases head : i < 12
  · refine ⟨globalDepth, ?_⟩
    simp only [Covers, globalDepthAt]
    omega
  by_cases depths : i < 524
  · refine ⟨depth (i - 12), ?_⟩
    simp only [Covers, directorySlots_eq, depthsAt]
    omega
  · refine ⟨bucket ((i - 524) / 4), ?_⟩
    simp only [Covers, directorySlots_eq, bucketsAt_eq]
    omega

end Field

theorem Denotes.byteAt_eq {other : DirectoryState} {field : Field} {i : Nat} (denotes : Denotes page state)
    (also : Denotes later other) (same : field.Same state other) (covers : field.Covers i) :
    later.byteAt i = page.byteAt i := by
  cases field with
  | globalDepth =>
    obtain ⟨above, below⟩ := covers
    have words : later.wordAt globalDepthAt = page.wordAt globalDepthAt := by
      apply UInt32.toNat_inj.mp
      rw [← denotes.state_eq, ← also.state_eq] at same
      exact same
    have byte := byteAt_of_wordAt words (i := i - globalDepthAt) (by omega)
    rwa [Nat.add_sub_cancel' above] at byte
  | depth slot =>
    obtain ⟨small, rfl⟩ := covers
    apply UInt8.toNat_inj.mp
    rw [also.depth small, denotes.depth small]
    exact same
  | bucket slot =>
    obtain ⟨small, above, below⟩ := covers
    have words : later.wordAt (bucketsAt + 4 * slot) = page.wordAt (bucketsAt + 4 * slot) := by
      rw [also.bucket small, denotes.bucket small]
      exact congrArg PageId.number same
    have byte := byteAt_of_wordAt words (i := i - (bucketsAt + 4 * slot)) (by omega)
    rwa [Nat.add_sub_cancel' above] at byte

/-- Two directory pages that say the same are the same, but for bytes that no edit writes. -/
theorem Denotes.eq_of_spares (denotes : Denotes page state) (also : Denotes later state)
    (spares : Spares Editable page later) : later = page := by
  apply ext_byteAt
  intro i _
  by_cases written : Editable i
  · obtain ⟨field, covers⟩ := Field.exists_covers written
    exact denotes.byteAt_eq also (field.same_refl state) covers
  · exact spares i written

/-! ### Directories that are formatted and edited -/

/-- A directory page that was formatted, and edited as it goes. -/
inductive Built : Directory pageSize → Prop where
  | formatted {page : Page} {maxDepth : Nat} {directory : Directory pageSize}
      (done : Directory.format page maxDepth = .ok directory) : Built directory
  | edited {directory next : Directory pageSize} (before : Built directory) (edit : Edit)
      (done : edit.run directory = .ok next) : Built next

theorem limited_of_format {maxDepth : Nat} (done : Directory.format page maxDepth = .ok directory) :
    maxDepth ≤ maxDirectoryDepth := by
  unfold Directory.format at done
  split at done
  · cases done
  · rename_i limited
    exact Nat.not_lt.mp limited

theorem byteAt_of_format {maxDepth : Nat} (done : Directory.format page maxDepth = .ok directory) (i : Nat) :
    directory.bytes.byteAt i = if i < extent then freshByte maxDepth i else page.byteAt i := by
  have reach : extent ≤ pageSize := by decide
  unfold Directory.format at done
  split at done
  · cases done
  · rw [if_neg (Nat.not_lt.mpr reach)] at done
    cases done
    exact byteAt_mapFinIdx (freshByte maxDepth) extent i reach

theorem Built.denotes (built : Built directory) : ∃ state, Denotes directory.bytes state ∧ state.Tidy := by
  induction built with
  | formatted done =>
    have limited := limited_of_format done
    obtain ⟨later, formatted, denotes⟩ := format_ok _ limited
    rw [done] at formatted
    cases formatted
    exact ⟨_, denotes, tidy_fresh limited⟩
  | edited before edit done ih =>
    obtain ⟨state, denotes, tidy⟩ := ih
    have fits := denotes.inRange_of_ok tidy edit done
    obtain ⟨later, again, ends⟩ := denotes.edited tidy edit fits
    have same := done.symm.trans again
    cases same
    exact ⟨_, ends, Edit.tidy tidy fits⟩

end PagedIndex.Directory
