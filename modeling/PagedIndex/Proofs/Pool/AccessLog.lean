import Mathlib
import PagedIndex.Identifier

/-!
# Access logs

The log of a pool notes for every call which page it accessed, and which pages were in the pool after it. Nothing
else is needed to say which page LRU-K gives up; no two pages have a claim to it.
-/

namespace PagedIndex

structure Moment where
  /-- The page that a call accessed; none if it accessed none, or failed. -/
  accessed : Option PageId
  resident : PageId → Bool

/-- All moments of a pool, the latest first. -/
abbrev AccessLog := List Moment

namespace AccessLog

variable {k : Nat} {log : AccessLog} {candidate : PageId → Prop} {page other : PageId}

def total (log : AccessLog) : Nat := log.countP fun moment => moment.accessed.isSome

/-- The accesses to a page since it last came into the pool, the latest first. Each of them is named by the number
of accesses, to whatever pages, that came before it. -/
def accesses : AccessLog → PageId → List Nat
  | [], _ => []
  | moment :: before, page =>
    if moment.resident page then
      if moment.accessed = some page then total before :: accesses before page else accesses before page
    else []

def first (log : AccessLog) (page : PageId) : Nat := (accesses log page).getLastD 0

/-- The `k`-th access to a page, counted back from the latest. -/
def latest (k : Nat) (log : AccessLog) (page : PageId) : Nat := (accesses log page).getD (k - 1) 0

def Few (k : Nat) (log : AccessLog) (page : PageId) : Prop := (accesses log page).length < k

/-- The page that LRU-K gives up. If some candidates were accessed fewer than `k` times it is the one of these
whose first access is the oldest, and else the one whose `k`-th latest access is. -/
structure LeastRecent (k : Nat) (log : AccessLog) (candidate : PageId → Prop) (page : PageId) : Prop where
  eligible : candidate page
  few : (∃ other, candidate other ∧ Few k log other) →
    Few k log page ∧ ∀ other, candidate other → Few k log other → other ≠ page → first log page < first log other
  many : (∀ other, candidate other → ¬ Few k log other) →
    ∀ other, candidate other → other ≠ page → latest k log page < latest k log other

theorem LeastRecent.unique (one : LeastRecent k log candidate page) (two : LeastRecent k log candidate other) :
    page = other := by
  by_contra differ
  by_cases cold : ∃ some_page, candidate some_page ∧ Few k log some_page
  · obtain ⟨few_one, least_one⟩ := one.few cold
    obtain ⟨few_two, least_two⟩ := two.few cold
    have before := least_one other two.eligible few_two (Ne.symm differ)
    have after := least_two page one.eligible few_one differ
    omega
  · have warm : ∀ some_page, candidate some_page → ¬ Few k log some_page := fun some_page there few =>
      cold ⟨some_page, there, few⟩
    have before := one.many warm other two.eligible (Ne.symm differ)
    have after := two.many warm page one.eligible differ
    omega

theorem lt_total {time : Nat} (member : time ∈ accesses log page) : time < total log := by
  induction log with
  | nil => cases member
  | cons moment before ih =>
    have later : total before ≤ total (moment :: before) := by
      rw [total, total, List.countP_cons]
      exact Nat.le_add_right _ _
    rw [accesses] at member
    split at member
    · split at member
      · rename_i here
        have grown : total (moment :: before) = total before + 1 := by
          rw [total, List.countP_cons_of_pos (by simp [here]), total]
        rcases List.mem_cons.mp member with rfl | member
        · omega
        · exact Nat.lt_of_lt_of_le (ih member) later
      · exact Nat.lt_of_lt_of_le (ih member) later
    · cases member

theorem eq_of_mem {time : Nat} (mine : time ∈ accesses log page) (theirs : time ∈ accesses log other) :
    page = other := by
  induction log with
  | nil => cases mine
  | cons moment before ih =>
    rw [accesses] at mine theirs
    split at mine
    · split at theirs
      · split at mine <;> split at theirs
        · rename_i here there
          exact Option.some.inj (here.symm.trans there)
        · rcases List.mem_cons.mp mine with rfl | mine
          · exact absurd (lt_total theirs) (Nat.lt_irrefl _)
          · exact ih mine theirs
        · rcases List.mem_cons.mp theirs with rfl | theirs
          · exact absurd (lt_total mine) (Nat.lt_irrefl _)
          · exact ih mine theirs
        · exact ih mine theirs
      · cases theirs
    · cases mine

end AccessLog

end PagedIndex
