import Mathlib
import PagedIndex.Proofs.Pool.Memory
import PagedIndex.Proofs.Table.Shelves
import PagedIndex.Proofs.Table.Upkeep
import PagedIndex.Table

/-!
# Directories and what they reach

A directory page houses a list of entries if its buckets hold them. An operation on a directory changes no
page that the directory does not reach, reaches none that was anybody else's, and answers for those it makes.
-/

namespace PagedIndex.Table

open DirectoryState

variable {K V : Type} {hash : K → UInt32} {pages after : Pages} {directory page : PageId}
  {state : DirectoryState} {limit : Nat} {entries : List (K × V)} {bytes : Page}

/-- A directory and its buckets. -/
def Reaches (pages : Pages) (directory page : PageId) : Prop :=
  page = directory ∨ (Directory.stateOf (pages.content directory)).Mentions page

theorem reaches_congr (same : after.content directory = pages.content directory) :
    Reaches after directory page ↔ Reaches pages directory page := by
  rw [Reaches, Reaches, same]

theorem ne_of_issued {page : PageId} {next : UInt32} (issued : page.number < next) : page ≠ ⟨next⟩ := by
  rintro rfl
  exact UInt32.lt_irrefl _ issued

variable [FixedWidth K] [FixedWidth V]

structure Houses (hash : K → UInt32) (pages : Pages) (directory : PageId) (state : DirectoryState) (limit : Nat)
    (entries : List (K × V)) : Prop where
  denotes : Directory.Denotes (pages.content directory) state
  issued : directory.number < pages.next
  shelves : Shelves hash pages.content pages.next state limit entries

theorem Houses.reaches_iff (houses : Houses hash pages directory state limit entries) (page : PageId) :
    Reaches pages directory page ↔ page = directory ∨ state.Mentions page := by
  rw [Reaches, houses.denotes.state_eq]

theorem Shelves.apart {content : PageId → Page} {next : UInt32}
    (shelves : Shelves hash content next state limit entries) (tagged : PageKind.directory.Tags (content directory))
    (mentioned : state.Mentions page) : page ≠ directory := by
  rintro rfl
  cases (shelves.holds page mentioned).tagged.unique tagged

theorem Houses.apart (houses : Houses hash pages directory state limit entries) (mentioned : state.Mentions page) :
    page ≠ directory :=
  houses.shelves.apart houses.denotes.tagged mentioned

theorem Houses.reached_issued (houses : Houses hash pages directory state limit entries)
    (reached : Reaches pages directory page) : page.number < pages.next := by
  rcases (houses.reaches_iff page).mp reached with rfl | mentioned
  · exact houses.issued
  · exact houses.shelves.issued page mentioned

theorem Houses.congr (houses : Houses hash pages directory state limit entries)
    (same : ∀ page, Reaches pages directory page → after.content page = pages.content page)
    (more : pages.next ≤ after.next) : Houses hash after directory state limit entries where
  denotes := by
    rw [same directory (.inl rfl)]
    exact houses.denotes
  issued := UInt32.lt_of_lt_of_le houses.issued more
  shelves := houses.shelves.congr
    (fun page mentioned => same page ((houses.reaches_iff page).mpr (.inr mentioned))) more

theorem Houses.reached_written (houses : Houses hash pages directory state limit entries)
    (reached : Reaches pages directory page) : pages.content page ≠ Page.zero := by
  rcases (houses.reaches_iff page).mp reached with rfl | mentioned
  · exact houses.denotes.written
  · exact (houses.shelves.holds page mentioned).written

theorem Houses.shown (houses : Houses hash pages directory state limit entries) (shown : pages.Shown after) :
    Houses hash after directory state limit entries :=
  houses.congr (fun page reached => shown.content page (houses.reached_written reached))
    (UInt32.le_of_eq shown.next.symm)

theorem Shelves.linked (shelves : Shelves hash pages.content pages.next state limit entries)
    (tagged : PageKind.directory.Tags (pages.content directory)) (issued : directory.number < pages.next)
    (denotes : Directory.Denotes bytes state) :
    Houses hash (pages.write directory bytes) directory state limit entries where
  denotes := by simpa using denotes
  issued := issued
  shelves := shelves.congr (fun page mentioned => by simp [shelves.apart tagged mentioned]) (UInt32.le_refl _)

/-! ### What an operation leaves alone -/

abbrev Tends (directory : PageId) : Annals → Annals → Prop := Upkeep (Reaches · directory)

/-- What an operation on a directory leaves behind. -/
structure Tended (hash : K → UInt32) (directory : PageId) (before after : Annals) (entries : List (K × V)) :
    Prop where
  houses : ∃ state limit, Houses hash after.toPages directory state limit entries
  tends : Tends directory before after

theorem Houses.tended {annals : Annals} (houses : Houses hash annals.toPages directory state limit entries) :
    Tended hash directory annals annals entries :=
  ⟨⟨state, limit, houses⟩, .refl _ annals⟩

theorem Upkeep.tended {before middle after : Annals} (first : Tends directory before middle)
    (second : Tended hash directory middle after entries) : Tended hash directory before after entries :=
  ⟨second.houses, first.trans second.tends⟩

/-- Pages that the directory alone reaches are rewritten, and it reaches nothing else than before and new pages. -/
theorem Houses.minds (houses : Houses hash pages directory state limit entries) {last : DirectoryState}
    {most : Nat} {list : List (K × V)} (ends : Houses hash after directory last most list)
    (next : pages.next ≤ after.next)
    (others : ∀ page, page.number < pages.next → page ≠ directory → ¬ state.Mentions page →
      after.content page = pages.content page)
    (reach : ∀ page, last.Mentions page → state.Mentions page ∨ pages.next ≤ page.number) :
    Minds (Reaches · directory) pages after where
  next := next
  others page old apart := by
    rw [houses.reaches_iff, not_or] at apart
    exact others page old apart.1 apart.2
  reach page reached := by
    rw [houses.reaches_iff]
    rcases (ends.reaches_iff page).mp reached with same | mentioned
    · exact .inl (.inl same)
    · rcases reach page mentioned with mentioned | young
      · exact .inl (.inr mentioned)
      · exact .inr young

theorem Houses.tends_same {annals later : Annals} {last : DirectoryState} {most : Nat} {list : List (K × V)}
    (houses : Houses hash annals.toPages directory state limit entries)
    (ends : Houses hash later.toPages directory last most list) (next : later.next = annals.next)
    (marks : later.marks = annals.marks)
    (others : ∀ page, page ≠ directory → ¬ state.Mentions page → later.content page = annals.content page)
    (same : ∀ page, last.Mentions page ↔ state.Mentions page) : Tends directory annals later := by
  refine .of_same (houses.minds ends (UInt32.le_of_eq next.symm) (fun page _ => others page) fun page there => ?_)
    next marks fun page => ?_
  · exact .inl ((same page).mp there)
  · rw [houses.reaches_iff, ends.reaches_iff, same]

theorem Houses.tends_made {annals later : Annals} {last : DirectoryState} {most : Nat} {list : List (K × V)}
    (houses : Houses hash annals.toPages directory state limit entries)
    (ends : Houses hash later.toPages directory last most list) (next : later.next = annals.next + 1)
    (less : annals.next < later.next) (marks : later.marks = annals.marks ++ [.made ⟨annals.next⟩])
    (others : ∀ page, page.number < annals.next → page ≠ directory → ¬ state.Mentions page →
      later.content page = annals.content page)
    (grown : ∀ page, last.Mentions page ↔ state.Mentions page ∨ page = ⟨annals.next⟩) :
    Tends directory annals later := by
  refine .of_made next less marks (fun page old apart => ?_) fun page => ?_
  · rw [houses.reaches_iff, not_or] at apart
    exact others page old apart.1 apart.2
  · rw [houses.reaches_iff, ends.reaches_iff, grown, or_assoc]

theorem Houses.rewritten {annals : Annals} (houses : Houses hash annals.toPages directory state limit entries)
    {list : List (K × V)} (mentioned : state.Mentions page)
    (holds : Bucket.Holds bytes limit (routed hash state.home page list))
    (others : ∀ other, page ≠ other → routed hash state.home other list = routed hash state.home other entries) :
    Houses hash (annals.write page bytes).toPages directory state limit list ∧
      Tends directory annals (annals.write page bytes) := by
  have ends : Houses hash (annals.write page bytes).toPages directory state limit list :=
    ⟨by simpa [Annals.write, (houses.apart mentioned).symm] using houses.denotes, houses.issued,
      houses.shelves.rewritten mentioned holds others⟩
  refine ⟨ends, houses.tends_same ends rfl rfl (fun other _ apart => ?_) fun _ => Iff.rfl⟩
  have differ : other ≠ page := by
    rintro rfl
    exact apart mentioned
  simp [Annals.write, differ]

/-! ### Reading a directory -/

omit [FixedWidth K] [FixedWidth V] in
theorem bucketIn_ok (denotes : Directory.Denotes bytes state) (shallow : state.globalDepth ≤ maxDirectoryDepth)
    (key : UInt32) : bucketIn key bytes = .ok (key.toNat % state.size, state.home key) := by
  rw [Table.bucketIn, bind_of_ok _ denotes.ofBytes, bind_of_ok _ (denotes.slotFor shallow key),
    bind_of_ok _ (denotes.bucket_ok shallow (state.slot_lt key))]
  rfl

/-- The bucket to which a directory page sends a hash, and how many bits of the hash it looks at. -/
def routeIn (key : UInt32) (page : Page) : Outcome (PageId × Nat) := do
  let directory ← Directory.ofBytes page
  let slot ← directory.slotFor key
  return (← directory.bucket slot, ← directory.localDepth slot)

omit [FixedWidth K] [FixedWidth V] in
theorem routeIn_ok (denotes : Directory.Denotes bytes state) (shallow : state.globalDepth ≤ maxDirectoryDepth)
    (key : UInt32) : routeIn key bytes = .ok (state.home key, state.reach key) := by
  rw [routeIn, bind_of_ok _ denotes.ofBytes, bind_of_ok _ (denotes.slotFor shallow key),
    bind_of_ok _ (denotes.bucket_ok shallow (state.slot_lt key)),
    bind_of_ok _ (denotes.localDepth shallow (state.slot_lt key))]
  rfl

variable (houses : Houses hash pages directory state limit entries)

include houses

theorem Houses.shallow : state.globalDepth ≤ maxDirectoryDepth := houses.shelves.formed.shallow_max

theorem Houses.bucketIn (key : UInt32) :
    bucketIn key (pages.content directory) = .ok (key.toNat % state.size, state.home key) :=
  bucketIn_ok houses.denotes houses.shallow key

theorem Houses.vacant {key : UInt32} (invalid : (state.home key).isValid = false) :
    (state.bucket 0).isValid = false ∧ key.toNat % state.size = 0 ∧ state.globalDepth = 0 ∧ entries = [] := by
  rcases houses.shelves.formed.vacant_or_full with ⟨flat, vacant⟩ | full
  · have first : (state.bucket 0).isValid = false := by
      rw [vacant]
      rfl
    refine ⟨first, ?_, flat, houses.shelves.empty first⟩
    rw [size, flat, Nat.pow_zero, Nat.mod_one]
  · rw [home, full _ (state.slot_lt key)] at invalid
    cases invalid

theorem Houses.home_valid {entry : K × V} (member : entry ∈ entries) : (state.home (hash entry.1)).isValid = true := by
  by_contra invalid
  rw [(houses.vacant (by simpa using invalid)).2.2.2] at member
  cases member

end PagedIndex.Table
