import PagedIndex.Page

/-!
# Page stores

What the pool needs of the place where pages are kept.
-/

namespace PagedIndex

/-- A state that keeps pages. A request may change the state even when it fails. -/
class BackingStore (σ : Type) where
  read : PageId → EStateM Failure σ Page
  write : PageId → Page → EStateM Failure σ Unit
  /-- One past the highest page kept. -/
  bound : σ → Outcome UInt32

/-- The number after a page's number, if it is still a word. -/
def PageId.succ (page : PageId) : Outcome UInt32 :=
  if page.number.toNat + 1 < wordBound then return page.number + 1 else throw (.violation .overflow)

end PagedIndex
