import Mathlib
import PagedIndex.Proofs.Format.DirectoryEdits
import PagedIndex.Proofs.Table.Shelves

/-!
# Directories that grow and shrink

A directory that doubles leads every hash to the bucket that it led it to before, and so does one that halves, as
long as the slots that agree in the bits of a local depth say the same. What doubling does, halving takes back to
the byte.
-/

namespace PagedIndex.Directory

open DirectoryState

variable {n : Nat} {page : Page} {state : DirectoryState} {directory : Directory pageSize}

/-- What a hash finds: the bucket in its slot, with the local depth of the slot. -/
def find (directory : Directory n) (hash : UInt32) : Outcome (PageId × Nat) := do
  let slot ← directory.slotFor hash
  return (← directory.bucket slot, ← directory.localDepth slot)

/-- Slots that agree in the low bits of the local depth of one have the same bucket and the same local depth. -/
def Shares (directory : Directory n) : Prop :=
  ∀ size, directory.size = .ok size → ∀ a < size, ∀ b < size, ∀ depth, directory.localDepth a = .ok depth →
    a % 2 ^ depth = b % 2 ^ depth → directory.bucket b = directory.bucket a ∧ directory.localDepth b = .ok depth

/-- Growing and shrinking change nothing that a hash finds. -/
structure Steady (directory : Directory pageSize) : Prop where
  found : ∀ hash, ∃ bucket depth, directory.find hash = .ok (bucket, depth)
  grows : ∀ depth limit, directory.globalDepth = .ok depth → directory.maxDepth = .ok limit → depth < limit →
    ∃ later, directory.double = .ok later ∧ later.globalDepth = .ok (depth + 1) ∧
      (∀ hash, later.find hash = directory.find hash) ∧ later.halve = .ok directory
  shrinks : directory.Shares → directory.canHalve = .ok true →
    ∃ later, directory.halve = .ok later ∧ ∀ hash, later.find hash = directory.find hash

section Denotes

variable (denotes : Denotes page state) (tidy : state.Tidy)

include denotes tidy

theorem Denotes.find (hash : UInt32) : Directory.find ⟨page⟩ hash = .ok (state.home hash, state.reach hash) := by
  have shallow := tidy.shallow_max
  have small := state.slot_lt hash
  rw [Directory.find, bind_of_ok _ (denotes.slotFor shallow hash), bind_of_ok _ (denotes.bucket_ok shallow small),
    bind_of_ok _ (denotes.localDepth shallow small)]
  rfl

theorem Denotes.shares_iff : Directory.Shares ⟨page⟩ ↔ state.Shared := by
  have shallow := tidy.shallow_max
  constructor
  · intro shares a small_a b small_b agree
    obtain ⟨bucket, depth⟩ :=
      shares _ (denotes.size shallow) a small_a b small_b _ (denotes.localDepth shallow small_a) agree
    rw [denotes.bucket_ok shallow small_b, denotes.bucket_ok shallow small_a] at bucket
    rw [denotes.localDepth shallow small_b] at depth
    exact ⟨Except.ok.inj bucket, Except.ok.inj depth⟩
  · intro shared size sized a small_a b small_b depth read agree
    rw [denotes.size shallow] at sized
    cases sized
    rw [denotes.localDepth shallow small_a] at read
    cases read
    obtain ⟨bucket, depth⟩ := shared a small_a b small_b agree
    rw [denotes.bucket_ok shallow small_b, denotes.bucket_ok shallow small_a, denotes.localDepth shallow small_b,
      bucket, depth]
    exact ⟨rfl, rfl⟩

theorem Denotes.halve_double {later : Page} (done : Directory.double ⟨page⟩ = .ok ⟨later⟩)
    (doubled : Denotes later state.double) (tidy_later : state.double.Tidy) :
    Directory.halve ⟨later⟩ = .ok ⟨page⟩ := by
  have deep : 0 < state.double.globalDepth := Nat.succ_pos _
  obtain ⟨last, halved, ends⟩ := doubled.halve deep tidy_later.shallow_max
  rw [tidy.halve_double] at ends
  have spared := (denotes.spares_double tidy done).trans (doubled.spares_halve tidy_later halved)
  rw [halved, denotes.eq_of_spares ends spared]

theorem Denotes.steady : Steady ⟨page⟩ where
  found hash := ⟨_, _, denotes.find tidy hash⟩
  grows depth limit read limited room := by
    rw [denotes.globalDepth] at read
    cases read
    rw [denotes.maxDepth] at limited
    cases limited
    obtain ⟨later, done, doubled⟩ := denotes.double room tidy.limited
    have tidy_later := tidy.double room
    refine ⟨⟨later⟩, done, doubled.globalDepth, ?_, denotes.halve_double tidy done doubled tidy_later⟩
    intro hash
    rw [doubled.find tidy_later, denotes.find tidy, home_double, reach_double]
  shrinks shares can := by
    have shallow := tidy.shallow_max
    obtain ⟨answer, asked, yes⟩ := denotes.canHalve shallow
    rw [can] at asked
    cases asked
    have halves := yes.mp rfl
    have shared := (denotes.shares_iff tidy).mp shares
    obtain ⟨later, done, halved⟩ := denotes.halve halves.1 shallow
    refine ⟨⟨later⟩, done, ?_⟩
    intro hash
    obtain ⟨home, reach⟩ := shared.halve halves hash
    rw [halved.find (tidy.halve halves.1), denotes.find tidy, home, reach]

end Denotes

/-- A directory that was formatted and edited leads every hash where it led it, however it grows and shrinks. -/
theorem Built.keeps_routes (built : Built directory) : Steady directory := by
  obtain ⟨state, denotes, tidy⟩ := built.denotes
  exact denotes.steady tidy

/-- A directory with one bucket, doubled, that may both grow and shrink. -/
theorem keeps_routes_doubled : ∃ formatted filled doubled,
    Directory.format (Vector.replicate pageSize 0) 2 = .ok formatted ∧ formatted.setBucket 0 ⟨7⟩ = .ok filled ∧
      filled.double = .ok doubled ∧ doubled.globalDepth = .ok 1 ∧ doubled.maxDepth = .ok 2 ∧ doubled.Shares ∧
      doubled.canHalve = .ok true ∧ Steady doubled := by
  have fresh : (freshState 2).Tidy := tidy_fresh (by decide)
  have first : 0 < (freshState 2).size := by decide
  obtain ⟨formatted, format, denotes⟩ := format_ok (Vector.replicate pageSize 0) (show 2 ≤ maxDirectoryDepth by decide)
  obtain ⟨filled, set, denotes⟩ := denotes.setBucket (by decide) first ⟨7⟩
  have tidy := tidy_setBucket fresh first ⟨7⟩
  obtain ⟨doubled, double, denotes⟩ := denotes.double (by decide) tidy.limited
  have tidy := tidy.double (by decide)
  have shared : ((freshState 2).setBucket 0 ⟨7⟩).double.Shared := by
    unfold Shared
    decide
  obtain ⟨answer, asked, can⟩ := denotes.canHalve tidy.shallow_max
  cases can.mpr ⟨by decide, by decide⟩
  have built : Built ⟨doubled⟩ := .edited (.edited (.formatted format) (.setBucket 0 ⟨7⟩) set) .double double
  exact ⟨_, _, _, format, set, double, denotes.globalDepth, denotes.maxDepth, (denotes.shares_iff tidy).mpr shared,
    asked, built.keeps_routes⟩

end PagedIndex.Directory
