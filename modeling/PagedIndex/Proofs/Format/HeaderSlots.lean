import Mathlib
import PagedIndex.Format.Header
import PagedIndex.Proofs.Format.Bytes

/-!
# What header pages say

A header page is read as a depth and a directory for every slot.
-/

namespace PagedIndex.Header

open Buffer PageKind

variable {page : Page} {slot : Nat}

def depthOf (page : Page) : Nat := (page.wordAt depthAt).toNat

def directoryAt (page : Page) (slot : Nat) : PageId := ⟨page.wordAt (slotsAt + 4 * slot)⟩

/-- The slot of a hash in a header page of a given depth. -/
def slotOf (depth : Nat) (hash : UInt32) : Nat := hash.toNat / 2 ^ (32 - depth)

theorem slotOf_lt {depth : Nat} (small : depth ≤ 32) (hash : UInt32) : slotOf depth hash < 2 ^ depth := by
  apply Nat.div_lt_of_lt_mul
  rw [← Nat.pow_add, Nat.sub_add_cancel small]
  exact hash.toNat_lt

structure Routes (page : Page) : Prop where
  tagged : PageKind.header.Tags page
  shallow : depthOf page ≤ maxHeaderDepth

theorem depth_ok (page : Page) : Header.depth ⟨page⟩ = .ok (depthOf page) := by
  rw [Header.depth, word_eq (by decide)]
  rfl

theorem size_le (shallow : depthOf page ≤ maxHeaderDepth) : 2 ^ depthOf page ≤ headerSlots :=
  Nat.pow_le_pow_right (by decide) shallow

section Routes

variable (routes : Routes page)

include routes

theorem Routes.written : page ≠ Page.zero := routes.tagged.written nofun

theorem Routes.depth_le : depthOf page ≤ 32 := Nat.le_trans routes.shallow (by decide)

theorem Routes.ofBytes : Header.ofBytes page = .ok ⟨page⟩ := by
  rw [Header.ofBytes, bind_of_ok _ routes.tagged.expect]
  rfl

theorem Routes.slotFor (hash : UInt32) : Header.slotFor ⟨page⟩ hash = .ok (slotOf (depthOf page) hash) := by
  rw [Header.slotFor, bind_of_ok _ (depth_ok page)]
  by_cases flat : depthOf page = 0
  · have only := slotOf_lt routes.depth_le hash
    rw [flat, Nat.pow_zero, Nat.lt_one_iff] at only
    rw [if_pos flat, flat, only]
    rfl
  · rw [if_neg flat, if_pos routes.depth_le]
    rfl

theorem Routes.inside (small : slot < 2 ^ depthOf page) : slotsAt + 4 * slot + 4 ≤ pageSize := by
  have bound := size_le routes.shallow
  have slots : headerSlots = 512 := rfl
  simp only [slotsAt, pageSize]
  omega

theorem Routes.size : Header.size ⟨page⟩ = .ok (2 ^ depthOf page) := by
  have depth := routes.shallow
  simp only [maxHeaderDepth] at depth
  rw [Header.size, bind_of_ok _ (depth_ok page), powerOfTwo, if_pos (by omega)]
  rfl

theorem Routes.requireSlot (small : slot < 2 ^ depthOf page) : Header.requireSlot ⟨page⟩ slot = .ok () := by
  rw [Header.requireSlot, bind_of_ok _ routes.size, if_pos small]
  rfl

theorem Routes.directory (small : slot < 2 ^ depthOf page) :
    Header.directory ⟨page⟩ slot = .ok (directoryAt page slot) := by
  rw [Header.directory, bind_of_ok _ (routes.requireSlot small), word_eq (routes.inside small)]
  rfl

theorem Routes.setDirectory (small : slot < 2 ^ depthOf page) (directory : PageId) :
    ∃ later, Header.setDirectory ⟨page⟩ slot directory = .ok ⟨later⟩ ∧ Routes later ∧
      depthOf later = depthOf page ∧
      ∀ other, directoryAt later other = if other = slot then directory else directoryAt page other := by
  have inside := routes.inside small
  have depth : depthOf (page.putWord (slotsAt + 4 * slot) directory.number) = depthOf page :=
    congrArg UInt32.toNat (wordAt_putWord_apart inside (.inl (by simp only [depthAt, slotsAt]; omega)))
  refine ⟨page.putWord (slotsAt + 4 * slot) directory.number, ?_, ⟨?_, ?_⟩, depth, fun other => ?_⟩
  · rw [Header.setDirectory, bind_of_ok _ (routes.requireSlot small), bind_of_ok _ (setWord_eq inside)]
    rfl
  · exact (byteAt_putWord_apart inside (.inl (by simp only [slotsAt]; omega))).trans routes.tagged
  · rw [depth]
    exact routes.shallow
  · by_cases same : other = slot
    · rw [if_pos same, directoryAt, same, wordAt_putWord inside]
    · rw [if_neg same, directoryAt, wordAt_putWord_apart inside (by omega), directoryAt]

end Routes

/-! ### Formatting -/

section Formatted

variable {depth : Nat} {header : Header pageSize}

theorem limited_of_format (done : Header.format page depth = .ok header) : depth ≤ maxHeaderDepth := by
  unfold Header.format at done
  split at done
  · cases done
  · rename_i limited
    exact Nat.not_lt.mp limited

theorem byteAt_of_format (done : Header.format page depth = .ok header) (i : Nat) :
    header.bytes.byteAt i = if i < extent then freshByte depth i else page.byteAt i := by
  have reach : extent ≤ pageSize := by decide
  unfold Header.format at done
  split at done
  · cases done
  · rw [if_neg (Nat.not_lt.mpr reach)] at done
    cases done
    exact byteAt_mapFinIdx (freshByte depth) extent i reach

theorem freshByte_zero (depth : Nat) {i : Nat} (tag : i ≠ 0) (apart : i ≠ depthAt) (before : i < slotsAt) :
    freshByte depth i = 0 := by
  rw [freshByte, if_neg tag, if_neg apart, if_pos before]

theorem depthOf_of_format (done : Header.format page depth = .ok header) : depthOf header.bytes = depth := by
  have limited := limited_of_format done
  simp only [maxHeaderDepth] at limited
  have first : header.bytes.byteAt depthAt = UInt8.ofNat depth := byteAt_of_format done depthAt
  have word : header.bytes.wordAt depthAt = UInt32.ofNat depth :=
    wordAt_of_first (by omega) first fun i above less => by
    rw [byteAt_of_format done, if_pos (by simp only [depthAt, extent, slotsAt]; omega),
      freshByte_zero _ (by omega) (by omega) (by simp only [depthAt, slotsAt]; omega)]
  rw [depthOf, word, UInt32.toNat_ofNat']
  exact Nat.mod_eq_of_lt (by omega)

theorem directoryAt_of_format (done : Header.format page depth = .ok header) (small : slot < headerSlots) :
    directoryAt header.bytes slot = .invalid := by
  have slots : headerSlots = 512 := rfl
  have vacant : header.bytes.wordAt (slotsAt + 4 * slot) = UInt32.ofNat 4294967295 := wordAt_of_ones fun i less => by
    rw [byteAt_of_format done, if_pos (by simp only [extent, slotsAt]; omega), freshByte,
      if_neg (by simp only [slotsAt]; omega), if_neg (by simp only [slotsAt, depthAt]; omega), if_neg (by omega)]
  rw [directoryAt, vacant]
  rfl

theorem routes_of_format (done : Header.format page depth = .ok header) : Routes header.bytes where
  tagged := byteAt_of_format done 0
  shallow := by
    rw [depthOf_of_format done]
    exact limited_of_format done

end Formatted

theorem format_ok (page : Page) {depth : Nat} (limited : depth ≤ maxHeaderDepth) :
    ∃ later, Header.format page depth = .ok ⟨later⟩ ∧ Routes later ∧ depthOf later = depth ∧
      ∀ slot < 2 ^ depthOf later, directoryAt later slot = .invalid := by
  have reach : extent ≤ pageSize := by decide
  have done : Header.format page depth =
      .ok ⟨page.mapFinIdx fun i byte _ => if i < extent then freshByte depth i else byte⟩ := by
    rw [format, if_neg (Nat.not_lt.mpr limited), if_neg (Nat.not_lt.mpr reach)]
    rfl
  have routes := routes_of_format done
  refine ⟨_, done, routes, depthOf_of_format done, fun slot less => ?_⟩
  exact directoryAt_of_format done (Nat.lt_of_lt_of_le less (size_le routes.shallow))

end PagedIndex.Header
