import Mathlib
import PagedIndex.Proofs.Format.BucketEntries
import PagedIndex.Proofs.Pool.Marks

/-!
# Keeping books of pages

Whoever reaches some pages and works on them changes no others, and answers for all that it makes: a page that it
made or reached before is one that it still reaches, or one that it had the pool delete, and not both. A page is
deleted once, and when it is, nothing reaches it and it holds no entry.
-/

namespace PagedIndex

/-- A bucket page that says it holds no entry. -/
def Bucket.Vacated (page : Page) : Prop :=
  PageKind.bucket.Tags page ∧ (page.wordAt Bucket.sizeAt).toNat = 0

theorem Bucket.Holds.vacated {K V : Type} [FixedWidth K] [FixedWidth V] {page : Page} {most : Nat}
    (holds : Bucket.Holds page most ([] : List (K × V))) : Bucket.Vacated page :=
  ⟨holds.tagged, holds.size_eq⟩

namespace Table

/-- The pages that somebody reaches, as far as the pages say. -/
abbrev Extent := Pages → PageId → Prop

variable {extent : Extent} {page : PageId}

/-- Of the pages that were there, only reached ones have changed, and no others are reached now. -/
structure Minds (extent : Extent) (before after : Pages) : Prop where
  next : before.next ≤ after.next
  others : ∀ page, page.number < before.next → ¬ extent before page → after.content page = before.content page
  reach : ∀ page, extent after page → extent before page ∨ before.next ≤ page.number

theorem Minds.refl (extent : Extent) (pages : Pages) : Minds extent pages pages :=
  ⟨UInt32.le_refl _, fun _ _ _ => rfl, fun _ reached => .inl reached⟩

theorem Minds.trans {before middle after : Pages} (first : Minds extent before middle)
    (second : Minds extent middle after) : Minds extent before after where
  next := UInt32.le_trans first.next second.next
  others page old apart := by
    rw [second.others page (UInt32.lt_of_lt_of_le old first.next) fun reached => ?_, first.others page old apart]
    rcases first.reach page reached with reached | young
    · exact apart reached
    · exact absurd old (UInt32.not_lt.mpr young)
  reach page reached := by
    rcases second.reach page reached with reached | young
    · exact first.reach page reached
    · exact .inr (UInt32.le_trans first.next young)

/-- The same, as far as it can be seen: of the others only those that hold anything are known to stay. -/
structure Heeds (extent : Extent) (before seen : Pages) : Prop where
  next : before.next ≤ seen.next
  others : ∀ page, page.number < before.next → ¬ extent before page → before.content page ≠ Page.zero →
    seen.content page = before.content page
  reach : ∀ page, extent seen page → extent before page ∨ before.next ≤ page.number

theorem Minds.heeds {before after : Pages} (minds : Minds extent before after) : Heeds extent before after :=
  ⟨minds.next, fun page old apart _ => minds.others page old apart, minds.reach⟩

theorem Minds.shown {before after seen : Pages} (minds : Minds extent before after) (shown : after.Shown seen)
    (same : ∀ page, extent seen page → extent after page) : Heeds extent before seen where
  next := shown.next ▸ minds.next
  others page old apart holds := by
    have stays := minds.others page old apart
    rw [shown.content page (by rwa [stays]), stays]
  reach page reached := minds.reach page (same page reached)

theorem Minds.trans_heeds {before middle seen : Pages} (first : Minds extent before middle)
    (second : Heeds extent middle seen) : Heeds extent before seen where
  next := UInt32.le_trans first.next second.next
  others page old apart holds := by
    have stays := first.others page old apart
    rw [second.others page (UInt32.lt_of_lt_of_le old first.next) (fun reached => ?_) (by rwa [stays]), stays]
    rcases first.reach page reached with reached | young
    · exact apart reached
    · exact absurd old (UInt32.not_lt.mpr young)
  reach page reached := by
    rcases second.reach page reached with reached | young
    · exact first.reach page reached
    · exact .inr (UInt32.le_trans first.next young)

/-- A page that was deleted was an empty bucket, which nothing reached any more. -/
structure Idle (extent : Extent) (before : Pages) (page : PageId) (seen : Pages) : Prop where
  heeds : Heeds extent before seen
  apart : ¬ extent seen page
  vacated : Bucket.Vacated (seen.content page)

/-- A record balances what is reached before and after. -/
structure Balances (extent : Extent) (before : Pages) (marks : List Mark) (after : Pages) : Prop where
  young : ∀ page ∈ madeIn marks, before.next ≤ page.number ∧ page.number < after.next
  made_once : (madeIn marks).Nodup
  kept_iff : ∀ page, extent before page ∨ page ∈ madeIn marks ↔ extent after page ∨ page ∈ droppedIn marks
  apart : ∀ page ∈ droppedIn marks, ¬ extent after page
  issued : ∀ page ∈ droppedIn marks, page.number < after.next
  dropped_once : (droppedIn marks).Nodup

theorem Balances.none {before after : Pages} (same : ∀ page, extent after page ↔ extent before page) :
    Balances extent before [] after where
  young := nofun
  made_once := .nil
  kept_iff page := by simp [madeIn, droppedIn, same]
  apart := nofun
  issued := nofun
  dropped_once := .nil

/-- What was deleted before is not reached later: only pages that are reached, or new ones, are. -/
theorem Balances.gone {before middle after : Pages} {marks more : List Mark}
    (first : Balances extent before marks middle) (second : Balances extent middle more after)
    (dropped : page ∈ droppedIn marks) : ¬ extent after page ∧ page ∉ droppedIn more := by
  have neither : ¬ (extent middle page ∨ page ∈ madeIn more) := by
    rintro (reached | made)
    · exact first.apart page dropped reached
    · exact UInt32.not_lt.mpr (second.young page made).1 (first.issued page dropped)
  rw [second.kept_iff] at neither
  exact not_or.mp neither

theorem Balances.trans {before middle after : Pages} {marks more : List Mark} (next : before.next ≤ middle.next)
    (later : middle.next ≤ after.next) (first : Balances extent before marks middle)
    (second : Balances extent middle more after) : Balances extent before (marks ++ more) after where
  young page made := by
    rw [madeIn_append, List.mem_append] at made
    rcases made with made | made
    · obtain ⟨low, high⟩ := first.young page made
      exact ⟨low, UInt32.lt_of_lt_of_le high later⟩
    · obtain ⟨low, high⟩ := second.young page made
      exact ⟨UInt32.le_trans next low, high⟩
  made_once := by
    rw [madeIn_append, List.nodup_append]
    refine ⟨first.made_once, second.made_once, fun page made other again => ?_⟩
    rintro rfl
    exact UInt32.not_lt.mpr (second.young page again).1 (first.young page made).2
  kept_iff page := by
    rw [madeIn_append, droppedIn_append, List.mem_append, List.mem_append]
    -- What is reached in between is on both sides, beside what was deleted before and is made later.
    rw [← or_assoc, first.kept_iff, or_right_comm, second.kept_iff, or_right_comm, or_assoc]
  apart page dropped := by
    rw [droppedIn_append, List.mem_append] at dropped
    exact dropped.elim (fun dropped => (first.gone second dropped).1) (second.apart page)
  issued page dropped := by
    rw [droppedIn_append, List.mem_append] at dropped
    exact dropped.elim (fun dropped => UInt32.lt_of_lt_of_le (first.issued page dropped) later) (second.issued page)
  dropped_once := by
    rw [droppedIn_append, List.nodup_append]
    refine ⟨first.dropped_once, second.dropped_once, fun page dropped other again => ?_⟩
    rintro rfl
    exact (first.gone second dropped).2 again

/-- The record of an operation that works on what it reaches. -/
structure Booked (extent : Extent) (before : Pages) (marks : List Mark) (after : Pages) : Prop extends
    Balances extent before marks after where
  whole : ∀ page, before.next ≤ page.number → page.number < after.next → page ∈ madeIn marks
  idle : ∀ page gone seen, Mark.dropped page gone seen ∈ marks → Idle extent before page seen

theorem Booked.trans {before middle after : Pages} {marks more : List Mark} (minds : Minds extent before middle)
    (later : Minds extent middle after) (first : Booked extent before marks middle)
    (second : Booked extent middle more after) : Booked extent before (marks ++ more) after where
  toBalances := first.toBalances.trans minds.next later.next second.toBalances
  whole page low high := by
    rw [madeIn_append, List.mem_append]
    by_cases old : page.number < middle.next
    · exact .inl (first.whole page low old)
    · exact .inr (second.whole page (UInt32.not_lt.mp old) high)
  idle page gone seen member := by
    rcases List.mem_append.mp member with member | member
    · exact first.idle page gone seen member
    · obtain ⟨middle, apart, vacated⟩ := second.idle page gone seen member
      exact ⟨minds.trans_heeds middle, apart, vacated⟩

theorem Booked.shown {before after seen : Pages} {marks : List Mark} (booked : Booked extent before marks after)
    (next : seen.next = after.next) (same : ∀ page, extent seen page ↔ extent after page) :
    Booked extent before marks seen where
  young := by
    rw [next]
    exact booked.young
  made_once := booked.made_once
  kept_iff page := by rw [same, booked.kept_iff]
  apart page dropped := by
    rw [same]
    exact booked.apart page dropped
  issued := by
    rw [next]
    exact booked.issued
  dropped_once := booked.dropped_once
  whole := by
    rw [next]
    exact booked.whole
  idle := booked.idle

/-- Only reached pages have changed, and the record says what became of pages. -/
structure Upkeep (extent : Extent) (before after : Annals) : Prop extends
    Minds extent before.toPages after.toPages where
  books : ∃ marks, after.marks = before.marks ++ marks ∧ Booked extent before.toPages marks after.toPages

namespace Upkeep

variable {before middle after : Annals}

theorem of_same (minds : Minds extent before.toPages after.toPages) (next : after.next = before.next)
    (marks : after.marks = before.marks) (same : ∀ page, extent after.toPages page ↔ extent before.toPages page) :
    Upkeep extent before after :=
  ⟨minds, [], by rw [marks, List.append_nil], .none same,
    fun page low high => absurd high (UInt32.not_lt.mpr (by rwa [next])), fun _ _ _ => nofun⟩

theorem refl (extent : Extent) (annals : Annals) : Upkeep extent annals annals :=
  of_same (.refl extent annals.toPages) rfl rfl fun _ => Iff.rfl

theorem trans (first : Upkeep extent before middle) (second : Upkeep extent middle after) :
    Upkeep extent before after := by
  obtain ⟨marks, noted, booked⟩ := first.books
  obtain ⟨more, noted_more, booked_more⟩ := second.books
  refine ⟨first.toMinds.trans second.toMinds, marks ++ more, ?_,
    booked.trans first.toMinds second.toMinds booked_more⟩
  rw [noted_more, noted, List.append_assoc]

theorem of_made (next : after.next = before.next + 1) (less : before.next < after.next)
    (marks : after.marks = before.marks ++ [.made ⟨before.next⟩])
    (others : ∀ page, page.number < before.next → ¬ extent before.toPages page →
      after.content page = before.content page)
    (grown : ∀ page, extent after.toPages page ↔ extent before.toPages page ∨ page = ⟨before.next⟩) :
    Upkeep extent before after := by
  have one : ∀ number : UInt32, number = before.next ↔ before.next ≤ number ∧ number < after.next := by
    intro number
    rw [next] at less ⊢
    have more := Pool.toNat_succ_of_lt less
    simp only [← UInt32.toNat_inj, UInt32.le_iff_toNat_le, UInt32.lt_iff_toNat_lt, more]
    omega
  have made : ∀ page, page ∈ madeIn [.made ⟨before.next⟩] ↔ page = ⟨before.next⟩ := fun page => by
    simp [madeIn, Mark.made?]
  refine ⟨⟨UInt32.le_of_lt less, others, fun page reached => ?_⟩, _, marks, ⟨fun page there => ?_,
    by simp [madeIn, Mark.made?], fun page => ?_, nofun, nofun, .nil⟩, fun page low high => ?_, fun _ _ _ => by simp⟩
  · exact ((grown page).mp reached).imp_right fun same => by simp [same]
  · exact (one _).mp (by rw [(made page).mp there])
  · rw [made, grown]
    simp [droppedIn, Mark.dropped?]
  · exact (made page).mpr (congrArg PageId.mk ((one _).mpr ⟨low, high⟩))

theorem of_dropped {gone : Bool} {seen : Pages} (next : after.next = before.next)
    (marks : after.marks = before.marks ++ [.dropped page gone seen])
    (minds : Minds extent before.toPages after.toPages) (issued : page.number < before.next)
    (shrunk : ∀ other, extent before.toPages other ↔ extent after.toPages other ∨ other = page)
    (apart : ¬ extent after.toPages page) (idle : Idle extent before.toPages page seen) :
    Upkeep extent before after := by
  have dropped : ∀ other, other ∈ droppedIn [.dropped page gone seen] ↔ other = page := fun other => by
    simp [droppedIn, Mark.dropped?]
  refine ⟨minds, _, marks, ⟨fun other there => ?_, .nil, fun other => ?_, fun other there => ?_, fun other there => ?_,
    by simp [droppedIn, Mark.dropped?]⟩, fun other low high => ?_, fun other answer pages member => ?_⟩
  · cases there
  · rw [dropped, shrunk]
    simp [madeIn, Mark.made?]
  · rwa [(dropped other).mp there]
  · rwa [(dropped other).mp there, next]
  · exact absurd high (UInt32.not_lt.mpr (by rwa [next]))
  · obtain ⟨rfl, -, rfl⟩ : other = page ∧ answer = gone ∧ pages = seen := by simpa using member
    exact idle

end Upkeep

/-! ### What is one's own among other pages -/

section Wider

variable {inner outer : Extent} {aside : PageId → Prop}

theorem Heeds.widen {before after : Pages} (heeds : Heeds inner before after)
    (wide_before : ∀ page, outer before page ↔ inner before page ∨ aside page)
    (wide : ∀ page, outer after page ↔ inner after page ∨ aside page) : Heeds outer before after where
  next := heeds.next
  others page old apart := heeds.others page old fun reached => apart ((wide_before page).mpr (.inl reached))
  reach page reached := by
    rw [wide_before]
    rcases (wide page).mp reached with reached | beside
    · exact (heeds.reach page reached).imp_left .inl
    · exact .inl (.inr beside)

theorem Minds.widen {before after : Pages} (minds : Minds inner before after)
    (wide_before : ∀ page, outer before page ↔ inner before page ∨ aside page)
    (wide : ∀ page, outer after page ↔ inner after page ∨ aside page) : Minds outer before after where
  next := minds.next
  others page old apart := minds.others page old fun reached => apart ((wide_before page).mpr (.inl reached))
  reach := (minds.heeds.widen wide_before wide).reach

/-- Whoever reaches old pages beside those that are worked on has nothing else to answer for. -/
theorem Upkeep.widen {before after : Annals} (upkeep : Upkeep inner before after)
    (wide : ∀ seen, Heeds inner before.toPages seen → ∀ page, outer seen page ↔ inner seen page ∨ aside page)
    (old : ∀ page, aside page → page.number < before.next ∧ ¬ inner before.toPages page) :
    Upkeep outer before after := by
  obtain ⟨minds, marks, noted, booked⟩ := upkeep
  have wide_before := wide _ (Minds.refl inner before.toPages).heeds
  have wide_after := wide _ minds.heeds
  have beside : ∀ page ∈ droppedIn marks, ¬ aside page := by
    intro page dropped beside
    obtain ⟨early, apart⟩ := old page beside
    rcases (booked.kept_iff page).mpr (.inr dropped) with reached | made
    · exact apart reached
    · exact UInt32.not_lt.mpr (booked.young page made).1 early
  refine ⟨minds.widen wide_before wide_after, marks, noted, ⟨booked.young, booked.made_once, fun page => ?_,
    fun page dropped => ?_, booked.issued, booked.dropped_once⟩, booked.whole, fun page gone seen member => ?_⟩
  · rw [wide_before, wide_after, or_right_comm, booked.kept_iff, or_right_comm]
  · rw [wide_after, not_or]
    exact ⟨booked.apart page dropped, beside page dropped⟩
  · obtain ⟨heeds, apart, vacated⟩ := booked.idle page gone seen member
    refine ⟨heeds.widen wide_before (wide seen heeds), ?_, vacated⟩
    rw [wide seen heeds, not_or]
    exact ⟨apart, beside page (mem_droppedIn.mpr ⟨gone, seen, member⟩)⟩

end Wider

end Table

end PagedIndex
