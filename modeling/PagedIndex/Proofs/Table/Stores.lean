import Mathlib
import PagedIndex.Proofs.Table.Legible
import PagedIndex.Proofs.Table.Removing

/-!
# Tables as lists of entries

A table stores a list of entries if each of its directories houses those that the header routes to it, and no
two directories share a page. Every operation on a table is one on the list.
-/

namespace PagedIndex.Table

open DirectoryState
open Pool (Runs keeping holding entrusting view edit amend)

variable {K V : Type} {table : Table K V} {pages after : Pages} {entries list : List (K × V)} {slot : Nat}
  {page : PageId} {key : K}

/-- The header, the directories and their buckets. -/
def Owns (table : Table K V) (pages : Pages) (page : PageId) : Prop :=
  page = table.header ∨ ∃ slot < table.breadth pages, (table.branch pages slot).isValid = true ∧
    Reaches pages (table.branch pages slot) page

/-- What the directory in a slot of the header says, or a new one there would say. -/
def shape (table : Table K V) (pages : Pages) (slot : Nat) : DirectoryState :=
  if (table.branch pages slot).isValid then Directory.stateOf (pages.content (table.branch pages slot))
  else Directory.freshState table.directoryDepth

/-- All directories are as they were but for the one in some slot of the header. -/
def Elsewhere (table : Table K V) (slot : Nat) (before after : Pages) : Prop :=
  ∀ other < table.breadth before, slot ≠ other → table.branch after other = table.branch before other ∧
    ((table.branch before other).isValid = true → ∀ page, Reaches before (table.branch before other) page →
      after.content page = before.content page)

theorem shape_of_valid (valid : (table.branch pages slot).isValid = true) :
    table.shape pages slot = Directory.stateOf (pages.content (table.branch pages slot)) := if_pos valid

theorem shape_of_invalid (invalid : (table.branch pages slot).isValid = false) :
    table.shape pages slot = Directory.freshState table.directoryDepth := if_neg (by simp [invalid])

theorem shape_congr (linked : table.branch after slot = table.branch pages slot)
    (same : (table.branch pages slot).isValid = true →
      after.content (table.branch pages slot) = pages.content (table.branch pages slot)) :
    table.shape after slot = table.shape pages slot := by
  rw [shape, shape, linked]
  split
  · rename_i valid
    rw [same valid]
  · rfl

theorem Elsewhere.refl (table : Table K V) (slot : Nat) (pages : Pages) : Elsewhere table slot pages pages :=
  fun _ _ _ => ⟨rfl, fun _ _ _ => rfl⟩

theorem Elsewhere.shape {before : Pages} (elsewhere : Elsewhere table slot before after) {other : Nat}
    (small : other < table.breadth before) (differ : slot ≠ other) :
    table.shape after other = table.shape before other := by
  obtain ⟨linked, same⟩ := elsewhere other small differ
  exact shape_congr linked fun valid => same valid _ (.inl rfl)

theorem outline_congr (same : after.content table.header = pages.content table.header) :
    table.branch after = table.branch pages ∧ table.breadth after = table.breadth pages ∧
      table.route after = table.route pages := by
  refine ⟨funext fun slot => ?_, ?_, ?_⟩
  · rw [branch, same, branch]
  · rw [breadth, same, breadth]
  · rw [route, same, route]

theorem owns_congr (same : ∀ page, Owns table pages page → after.content page = pages.content page)
    (page : PageId) : Owns table after page ↔ Owns table pages page := by
  obtain ⟨branches, breadths, _⟩ := outline_congr (same table.header (.inl rfl))
  rw [Owns, Owns, branches, breadths]
  refine or_congr_right (exists_congr fun slot => and_congr_right fun small => and_congr_right fun valid => ?_)
  exact reaches_congr (same _ (.inr ⟨slot, small, valid, .inl rfl⟩))

theorem Elsewhere.trans {before middle : Pages} (first : Elsewhere table slot before middle)
    (second : Elsewhere table slot middle after) (breadths : table.breadth middle = table.breadth before) :
    Elsewhere table slot before after := by
  intro other small differ
  obtain ⟨linked, same⟩ := first other small differ
  obtain ⟨linked_after, same_after⟩ := second other (by rwa [breadths]) differ
  refine ⟨linked_after.trans linked, fun valid page reached => ?_⟩
  rw [linked] at same_after
  rw [same_after valid page ((reaches_congr (same valid _ (.inl rfl))).mpr reached), same valid page reached]

variable [FixedWidth K] [FixedWidth V]

structure Stores (table : Table K V) (pages : Pages) (entries : List (K × V)) : Prop where
  configured : table.Configured
  routes : Header.Routes (pages.content table.header)
  issued : table.header.number < pages.next
  vacant : ∀ slot < table.breadth pages, (table.branch pages slot).isValid = false →
    routed table.hash (table.route pages) slot entries = []
  houses : ∀ slot < table.breadth pages, (table.branch pages slot).isValid = true → ∃ state limit,
    Houses table.hash pages (table.branch pages slot) state limit
      (routed table.hash (table.route pages) slot entries)
  apart : ∀ a < table.breadth pages, ∀ b < table.breadth pages, (table.branch pages a).isValid = true →
    (table.branch pages b).isValid = true → a ≠ b →
    ∀ page, Reaches pages (table.branch pages a) page → ¬ Reaches pages (table.branch pages b) page

variable (stores : Stores table pages entries)

include stores

theorem Stores.legible : Legible table pages where
  routes := stores.routes
  issued := stores.issued
  readable slot small valid := by
    obtain ⟨state, limit, houses⟩ := stores.houses slot small valid
    exact houses.readable

theorem Stores.route_lt (hash : UInt32) : table.route pages hash < table.breadth pages :=
  stores.legible.route_lt hash

theorem Stores.header_apart (small : slot < table.breadth pages)
    (valid : (table.branch pages slot).isValid = true) :
    ¬ Reaches pages (table.branch pages slot) table.header :=
  stores.legible.header_apart small valid

theorem Stores.reached_issued (small : slot < table.breadth pages)
    (valid : (table.branch pages slot).isValid = true) (reached : Reaches pages (table.branch pages slot) page) :
    page.number < pages.next := by
  obtain ⟨state, limit, houses⟩ := stores.houses slot small valid
  exact houses.reached_issued reached

theorem Stores.owned_issued (owns : Owns table pages page) : page.number < pages.next := by
  rcases owns with rfl | ⟨slot, small, valid, reached⟩
  · exact stores.issued
  · exact stores.reached_issued small valid reached

theorem Stores.reached_written (small : slot < table.breadth pages)
    (valid : (table.branch pages slot).isValid = true) (reached : Reaches pages (table.branch pages slot) page) :
    pages.content page ≠ Page.zero := by
  obtain ⟨state, limit, houses⟩ := stores.houses slot small valid
  exact houses.reached_written reached

/-- No page of a table is all zeros: it bears the tag of its kind. -/
theorem Stores.written (owns : Owns table pages page) : pages.content page ≠ Page.zero := by
  rcases owns with rfl | ⟨slot, small, valid, reached⟩
  · exact stores.routes.written
  · exact stores.reached_written small valid reached

theorem Stores.congr (same : ∀ page, Owns table pages page → after.content page = pages.content page)
    (more : pages.next ≤ after.next) : Stores table after entries := by
  have header := same table.header (.inl rfl)
  obtain ⟨branches, breadths, routing⟩ := outline_congr header
  have owned : ∀ slot < table.breadth pages, (table.branch pages slot).isValid = true →
      ∀ page, Reaches pages (table.branch pages slot) page → after.content page = pages.content page :=
    fun slot small valid page reached => same page (.inr ⟨slot, small, valid, reached⟩)
  refine ⟨stores.configured, ?_, UInt32.lt_of_lt_of_le stores.issued more, ?_, ?_, ?_⟩
  · rw [header]
    exact stores.routes
  · rw [branches, breadths, routing]
    exact stores.vacant
  · rw [branches, breadths, routing]
    intro slot small valid
    obtain ⟨state, limit, houses⟩ := stores.houses slot small valid
    exact ⟨state, limit, houses.congr (owned slot small valid) more⟩
  · rw [branches, breadths]
    intro a small_a b small_b valid_a valid_b differ page
    rw [reaches_congr (owned a small_a valid_a _ (.inl rfl)), reaches_congr (owned b small_b valid_b _ (.inl rfl))]
    exact stores.apart a small_a b small_b valid_a valid_b differ page

theorem Stores.shown (shown : pages.Shown after) : Stores table after entries :=
  stores.congr (fun page owns => shown.content page (stores.written owns)) (UInt32.le_of_eq shown.next.symm)

theorem Stores.owns_shown (shown : pages.Shown after) (page : PageId) :
    Owns table after page ↔ Owns table pages page :=
  owns_congr (fun page owns => shown.content page (stores.written owns)) page

theorem Stores.outline_shown (shown : pages.Shown after) : table.branch after = table.branch pages ∧
    table.breadth after = table.breadth pages ∧ table.route after = table.route pages :=
  outline_congr (shown.content _ stores.routes.written)

theorem Stores.shape_formed (small : slot < table.breadth pages) : (table.shape pages slot).Formed := by
  by_cases valid : (table.branch pages slot).isValid = true
  · obtain ⟨state, limit, houses⟩ := stores.houses slot small valid
    rw [shape_of_valid valid, houses.denotes.state_eq]
    exact houses.shelves.formed
  · rw [shape_of_invalid (by simpa using valid)]
    exact formed_fresh stores.configured.depth

theorem Stores.shape_shown (shown : pages.Shown after) (small : slot < table.breadth pages) :
    table.shape after slot = table.shape pages slot := by
  obtain ⟨branches, _⟩ := stores.outline_shown shown
  exact shape_congr (by rw [branches]) fun valid =>
    shown.content _ (stores.reached_written small valid (.inl rfl))

omit stores in
theorem Elsewhere.shown {seen : Pages} (elsewhere : Elsewhere table slot pages after)
    (stores : Stores table pages entries) (left : Stores table after list) (shown : after.Shown seen) :
    Elsewhere table slot pages seen := by
  obtain ⟨branches, _⟩ := left.outline_shown shown
  intro other small differ
  obtain ⟨linked, same⟩ := elsewhere other small differ
  refine ⟨by rw [branches, linked], fun valid page reached => ?_⟩
  have stays := same valid page reached
  rw [shown.content page (by rw [stays]; exact stores.reached_written small valid reached), stays]

/-- When one directory is worked on, or is a new one, and the others stay, all are apart if that one is. -/
theorem Stores.apart_after (breadths : table.breadth after = table.breadth pages)
    (linked : ∀ other, slot ≠ other → table.branch after other = table.branch pages other)
    (same : ∀ other < table.breadth pages, (table.branch pages other).isValid = true → slot ≠ other →
      ∀ page, Reaches pages (table.branch pages other) page → after.content page = pages.content page)
    (distinct : ∀ other < table.breadth pages, (table.branch pages other).isValid = true → slot ≠ other →
      ∀ page, Reaches after (table.branch after slot) page → ¬ Reaches after (table.branch pages other) page) :
    ∀ a < table.breadth after, ∀ b < table.breadth after, (table.branch after a).isValid = true →
      (table.branch after b).isValid = true → a ≠ b →
      ∀ page, Reaches after (table.branch after a) page → ¬ Reaches after (table.branch after b) page := by
  rw [breadths]
  intro a small_a b small_b valid_a valid_b differ page
  by_cases at_a : slot = a
  · subst at_a
    rw [linked b differ] at valid_b ⊢
    exact distinct b small_b valid_b differ page
  · rw [linked a at_a] at valid_a ⊢
    by_cases at_b : slot = b
    · subst at_b
      exact fun reached there => distinct a small_a valid_a at_a page there reached
    · rw [linked b at_b] at valid_b ⊢
      rw [reaches_congr (same a small_a valid_a at_a _ (.inl rfl)),
        reaches_congr (same b small_b valid_b at_b _ (.inl rfl))]
      exact stores.apart a small_a b small_b valid_a valid_b differ page

theorem Stores.elsewhere (small : slot < table.breadth pages) (valid : (table.branch pages slot).isValid = true)
    (heeds : Heeds (Reaches · (table.branch pages slot)) pages after) : Elsewhere table slot pages after := by
  have header := heeds.others _ stores.issued (stores.header_apart small valid) stores.routes.written
  obtain ⟨branches, _⟩ := outline_congr header
  refine fun other small_other differ => ⟨by rw [branches], fun valid_other page reached => ?_⟩
  exact heeds.others page (stores.reached_issued small_other valid_other reached) (fun here =>
    stores.apart slot small other small_other valid valid_other differ page here reached)
    (stores.reached_written small_other valid_other reached)

theorem Stores.tended (small : slot < table.breadth pages) (valid : (table.branch pages slot).isValid = true)
    (houses : ∃ state limit, Houses table.hash after (table.branch pages slot) state limit
      (routed table.hash (table.route pages) slot list))
    (minds : Minds (Reaches · (table.branch pages slot)) pages after)
    (others : ∀ other, slot ≠ other → routed table.hash (table.route pages) other list =
      routed table.hash (table.route pages) other entries) : Stores table after list := by
  obtain ⟨state, limit, ends⟩ := houses
  have header : after.content table.header = pages.content table.header :=
    minds.others _ stores.issued (stores.header_apart small valid)
  obtain ⟨branches, breadths, routing⟩ := outline_congr header
  have same : ∀ other < table.breadth pages, (table.branch pages other).isValid = true → slot ≠ other →
      ∀ page, Reaches pages (table.branch pages other) page → after.content page = pages.content page :=
    fun other small_other valid_other differ =>
      (stores.elsewhere small valid minds.heeds other small_other differ).2 valid_other
  have distinct : ∀ other < table.breadth pages, (table.branch pages other).isValid = true → slot ≠ other →
      ∀ page, Reaches after (table.branch pages slot) page → ¬ Reaches after (table.branch pages other) page := by
    intro other small_other valid_other differ page reached
    rw [reaches_congr (same other small_other valid_other differ _ (.inl rfl))]
    rcases minds.reach page reached with old | young
    · exact stores.apart slot small other small_other valid valid_other differ page old
    · intro there
      exact absurd (stores.reached_issued small_other valid_other there) (UInt32.not_lt.mpr young)
  refine ⟨stores.configured, ?_, UInt32.lt_of_lt_of_le stores.issued minds.next, ?_, ?_, ?_⟩
  · rw [header]
    exact stores.routes
  · rw [branches, breadths, routing]
    intro other small_other invalid
    have differ : slot ≠ other := by
      rintro rfl
      rw [valid] at invalid
      cases invalid
    rw [others other differ]
    exact stores.vacant other small_other invalid
  · rw [branches, breadths, routing]
    intro other small_other valid_other
    by_cases here : slot = other
    · subst here
      exact ⟨state, limit, ends⟩
    · rw [others other here]
      obtain ⟨state, limit, houses⟩ := stores.houses other small_other valid_other
      exact ⟨state, limit, houses.congr (same other small_other valid_other here) minds.next⟩
  · refine stores.apart_after breadths (fun other _ => by rw [branches]) same ?_
    rw [branches]
    exact distinct

/-- A table owns what one of its directories reaches, and beside it what is always there in the meantime. -/
theorem Stores.owns_iff (small : slot < table.breadth pages) (valid : (table.branch pages slot).isValid = true)
    (heeds : Heeds (Reaches · (table.branch pages slot)) pages after) (page : PageId) :
    Owns table after page ↔ Reaches after (table.branch pages slot) page ∨ (page = table.header ∨
      ∃ other < table.breadth pages, slot ≠ other ∧ (table.branch pages other).isValid = true ∧
        Reaches pages (table.branch pages other) page) := by
  have elsewhere := stores.elsewhere small valid heeds
  obtain ⟨branches, breadths, _⟩ :=
    outline_congr (heeds.others _ stores.issued (stores.header_apart small valid) stores.routes.written)
  rw [Owns, branches, breadths]
  constructor
  · rintro (header | ⟨other, small_other, valid_other, reached⟩)
    · exact .inr (.inl header)
    · by_cases here : slot = other
      · exact .inl (here ▸ reached)
      · have same := (elsewhere other small_other here).2 valid_other _ (.inl rfl)
        exact .inr (.inr ⟨other, small_other, here, valid_other, (reaches_congr same).mp reached⟩)
  · rintro (reached | header | ⟨other, small_other, differ, valid_other, reached⟩)
    · exact .inr ⟨slot, small, valid, reached⟩
    · exact .inl header
    · have same := (elsewhere other small_other differ).2 valid_other _ (.inl rfl)
      exact .inr ⟨other, small_other, valid_other, (reaches_congr same).mpr reached⟩

omit stores in
theorem Stores.upkeep {before later : Annals} (stores : Stores table before.toPages entries)
    (small : slot < table.breadth before.toPages) (valid : (table.branch before.toPages slot).isValid = true)
    (tends : Tends (table.branch before.toPages slot) before later) : Upkeep (Owns table) before later := by
  refine tends.widen (fun _ heeds => stores.owns_iff small valid heeds) fun page beside => ?_
  rcases beside with rfl | ⟨other, small_other, differ, valid_other, reached⟩
  · exact ⟨stores.issued, stores.header_apart small valid⟩
  · exact ⟨stores.reached_issued small_other valid_other reached, fun here =>
      stores.apart slot small other small_other valid valid_other differ page here reached⟩

omit stores in
theorem reaches_fresh {directory : PageId} {most : Nat}
    (fresh : Directory.Denotes (pages.content directory) (Directory.freshState most))
    (reached : Reaches pages directory page) : page = directory := by
  rw [Reaches, fresh.state_eq] at reached
  rcases reached with same | ⟨valid, _, _, rfl⟩
  · exact same
  · cases valid

theorem Stores.old_same (others : ∀ page, page.number < pages.next → page ≠ table.header →
      after.content page = pages.content page) {other : Nat} (small : other < table.breadth pages)
    (valid : (table.branch pages other).isValid = true) (page : PageId)
    (reached : Reaches pages (table.branch pages other) page) : after.content page = pages.content page := by
  refine others page (stores.reached_issued small valid reached) ?_
  rintro rfl
  exact stores.header_apart small valid reached

theorem Stores.founded {most : Nat} (limited : most ≤ maxDirectoryDepth) (small : slot < table.breadth pages)
    (invalid : (table.branch pages slot).isValid = false) (less : pages.next < after.next)
    (routes : Header.Routes (after.content table.header))
    (depth : Header.depthOf (after.content table.header) = Header.depthOf (pages.content table.header))
    (linked : ∀ other, table.branch after other = if other = slot then ⟨pages.next⟩ else table.branch pages other)
    (fresh : Directory.Denotes (after.content ⟨pages.next⟩) (Directory.freshState most))
    (others : ∀ page, page.number < pages.next → page ≠ table.header → after.content page = pages.content page) :
    Stores table after entries := by
  have breadths : table.breadth after = table.breadth pages := by rw [breadth, depth, breadth]
  have routing : table.route after = table.route pages := by rw [route, depth, route]
  have same : ∀ other < table.breadth pages, (table.branch pages other).isValid = true →
      ∀ page, Reaches pages (table.branch pages other) page → after.content page = pages.content page :=
    fun other small_other valid => stores.old_same others small_other valid
  have distinct : ∀ other < table.breadth pages, (table.branch pages other).isValid = true →
      ∀ page, Reaches after ⟨pages.next⟩ page → ¬ Reaches after (table.branch pages other) page := by
    intro other small_other valid page reached there
    rw [reaches_fresh fresh reached, reaches_congr (same other small_other valid _ (.inl rfl))] at there
    exact UInt32.lt_irrefl _ (stores.reached_issued small_other valid there)
  refine ⟨stores.configured, routes, UInt32.lt_trans stores.issued less, ?_, ?_, ?_⟩
  · rw [breadths, routing]
    intro other small_other vacant
    rw [linked] at vacant
    split at vacant
    · rename_i here
      rw [here]
      exact stores.vacant slot small invalid
    · exact stores.vacant other small_other vacant
  · rw [breadths, routing]
    intro other small_other valid
    rw [linked] at valid ⊢
    split
    · rename_i here
      rw [here, stores.vacant slot small invalid]
      exact ⟨_, 0, fresh, less, shelves_fresh limited⟩
    · rename_i differ
      rw [if_neg differ] at valid
      obtain ⟨state, limit, houses⟩ := stores.houses other small_other valid
      exact ⟨state, limit, houses.congr (same other small_other valid) (UInt32.le_of_lt less)⟩
  · refine stores.apart_after breadths (fun other differ => by rw [linked, if_neg (Ne.symm differ)])
      (fun other small_other valid _ => same other small_other valid) ?_
    rw [linked, if_pos rfl]
    exact fun other small_other valid _ => distinct other small_other valid

theorem Stores.founded_owns {most : Nat} (small : slot < table.breadth pages)
    (invalid : (table.branch pages slot).isValid = false) (valid : (⟨pages.next⟩ : PageId).isValid = true)
    (breadths : table.breadth after = table.breadth pages)
    (linked : ∀ other, table.branch after other = if other = slot then ⟨pages.next⟩ else table.branch pages other)
    (fresh : Directory.Denotes (after.content ⟨pages.next⟩) (Directory.freshState most))
    (others : ∀ page, page.number < pages.next → page ≠ table.header → after.content page = pages.content page)
    (page : PageId) : Owns table after page ↔ Owns table pages page ∨ page = ⟨pages.next⟩ := by
  have branches : ∀ other, (table.branch pages other).isValid = true →
      table.branch after other = table.branch pages other := by
    intro other there
    rw [linked, if_neg]
    rintro rfl
    rw [invalid] at there
    cases there
  have reaches : ∀ other < table.breadth pages, (table.branch pages other).isValid = true →
      (Reaches after (table.branch pages other) page ↔ Reaches pages (table.branch pages other) page) :=
    fun other small_other there => reaches_congr (stores.old_same others small_other there _ (.inl rfl))
  rw [Owns, Owns, breadths]
  constructor
  · rintro (header | ⟨other, small_other, there, reached⟩)
    · exact .inl (.inl header)
    · by_cases here : other = slot
      · rw [linked, if_pos here] at reached
        exact .inr (reaches_fresh fresh reached)
      · rw [linked, if_neg here] at there reached
        exact .inl (.inr ⟨other, small_other, there, (reaches other small_other there).mp reached⟩)
  · rintro ((header | ⟨other, small_other, there, reached⟩) | rfl)
    · exact .inl header
    · refine .inr ⟨other, small_other, ?_⟩
      rw [branches other there]
      exact ⟨there, (reaches other small_other there).mpr reached⟩
    · refine .inr ⟨slot, small, ?_⟩
      rw [linked, if_pos rfl]
      exact ⟨valid, .inl rfl⟩

end PagedIndex.Table
