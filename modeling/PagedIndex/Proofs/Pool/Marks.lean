import Mathlib
import PagedIndex.Pool.Pin
import PagedIndex.Proofs.Pool.Coherence

/-!
# What becomes of pages

An action makes pages and asks for pages to be deleted, and nothing else that it does adds a page to a pool or
takes one out for good. Of an action that is run in a pool a record is kept of both, in the order in which it
happens.
-/

namespace PagedIndex

/-- The content of all pages, and the number of the next one. -/
structure Pages where
  content : PageId → Page
  next : UInt32

def Pages.write (pages : Pages) (page : PageId) (bytes : Page) : Pages :=
  { pages with content := Function.update pages.content page bytes }

/-- The pages seen are these, where they hold anything; of others it is not said what is seen. -/
structure Pages.Shown (pages seen : Pages) : Prop where
  next : seen.next = pages.next
  content : ∀ page, pages.content page ≠ Page.zero → seen.content page = pages.content page

@[simp] theorem Pages.content_write (pages : Pages) (page other : PageId) (bytes : Page) :
    (pages.write page bytes).content other = if other = page then bytes else pages.content other :=
  Function.update_apply ..

inductive Mark where
  | made (page : PageId)
  /-- The pool was asked to delete a page; whether it did, and what was seen of all pages just before. -/
  | dropped (page : PageId) (gone : Bool) (seen : Pages)

namespace Mark

def made? : Mark → Option PageId
  | made page => some page
  | dropped .. => none

def dropped? : Mark → Option PageId
  | made _ => none
  | dropped page _ _ => some page

def isGone : Mark → Bool
  | made _ => false
  | dropped _ gone _ => gone

end Mark

/-- The pages that a record says were made, in this order. -/
def madeIn (marks : List Mark) : List PageId := marks.filterMap Mark.made?

/-- The pages that a record says the pool was asked to delete, in this order. -/
def droppedIn (marks : List Mark) : List PageId := marks.filterMap Mark.dropped?

@[simp] theorem madeIn_append (marks more : List Mark) : madeIn (marks ++ more) = madeIn marks ++ madeIn more :=
  List.filterMap_append

@[simp] theorem droppedIn_append (marks more : List Mark) :
    droppedIn (marks ++ more) = droppedIn marks ++ droppedIn more :=
  List.filterMap_append

theorem mem_droppedIn {marks : List Mark} {page : PageId} :
    page ∈ droppedIn marks ↔ ∃ gone seen, Mark.dropped page gone seen ∈ marks := by
  rw [droppedIn, List.mem_filterMap]
  constructor
  · rintro ⟨mark, member, named⟩
    cases mark with
    | made => cases named
    | dropped other gone seen =>
      cases named
      exact ⟨gone, seen, member⟩
  · rintro ⟨gone, seen, member⟩
    exact ⟨_, member, rfl⟩

/-- The pages, and what became of pages so far. -/
structure Annals extends Pages where
  marks : List Mark

def Annals.write (annals : Annals) (page : PageId) (bytes : Page) : Annals :=
  { annals with toPages := annals.toPages.write page bytes }

/-- The annals after the pool was asked to delete a page, which shows these bytes from then on. -/
def Annals.drop (annals : Annals) (page : PageId) (gone : Bool) (bytes : Page) (seen : Pages) : Annals :=
  { annals.write page bytes with marks := annals.marks ++ [.dropped page gone seen] }

namespace Pool

variable {σ : Type} [BackingStore σ]

/-- The steps that neither make a page nor delete one. -/
inductive Plain : {α : Type} → Action σ α → Prop where
  | pure {α : Type} (value : α) : Plain (Pure.pure value)
  | lift {α : Type} (outcome : Outcome α) : Plain (liftM outcome)
  | fetch (page : PageId) : Plain (Pool.fetch page)
  | unpin (page : PageId) (dirty : Bool) : Plain (Pool.unpin page dirty)
  | view {α : Type} (page : PageId) (look : Page → Outcome α) : Plain (Pool.view page look)
  | touch (page : PageId) : Plain (Pool.touch page)
  | edit {α : Type} (page : PageId) (change : Page → Outcome (α × Page)) : Plain (Pool.edit page change)

variable [PageKeeper σ]

def pages (pool : Pool σ) : Pages := ⟨pool.visible, pool.next⟩

/-- The record of an action that is run in a pool: it follows the steps of the action as far as they come. -/
inductive Leaves : {α : Type} → Action σ α → Pool σ → List Mark → Prop where
  | plain {α : Type} {action : Action σ α} {pool : Pool σ} (plain : Plain action) : Leaves action pool []
  | new_ok {pool later : Pool σ} {page : PageId} {id : FrameId} (done : Pool.new pool = .ok (page, id) later) :
    Leaves Pool.new pool [.made page]
  | new_error {pool later : Pool σ} {failure : Failure} (done : Pool.new pool = .error failure later) :
    Leaves Pool.new pool []
  | delete_ok {pool later : Pool σ} {page : PageId} {gone : Bool} (done : Pool.delete page pool = .ok gone later) :
    Leaves (Pool.delete page) pool [.dropped page gone pool.pages]
  | delete_error {pool later : Pool σ} {page : PageId} {failure : Failure}
    (done : Pool.delete page pool = .error failure later) : Leaves (Pool.delete page) pool []
  | bind_ok {α β : Type} {action : Action σ α} {rest : α → Action σ β} {pool middle : Pool σ} {value : α}
    {marks more : List Mark} (first : Leaves action pool marks) (done : action pool = .ok value middle)
    (second : Leaves (rest value) middle more) : Leaves (action >>= rest) pool (marks ++ more)
  | bind_error {α β : Type} {action : Action σ α} {rest : α → Action σ β} {pool later : Pool σ} {failure : Failure}
    {marks : List Mark} (first : Leaves action pool marks) (done : action pool = .error failure later) :
    Leaves (action >>= rest) pool marks
  | keeping {α : Type} {page : PageId} {action : Action σ α} {pool : Pool σ} {marks : List Mark}
    (inner : Leaves action pool marks) : Leaves (Pool.keeping page action) pool marks
  | entrusting {α : Type} {page : PageId} {action : Action σ α} {pool : Pool σ} {marks : List Mark}
    (inner : Leaves action pool marks) : Leaves (Pool.entrusting page action) pool marks

/-! ### Deletions are counted, and frames stay -/

/-- How many deletions a pool has counted, and how many frames it has. -/
def gauge (pool : Pool σ) : UInt64 × Nat := (pool.stats.deletes, pool.size)

omit [BackingStore σ] [PageKeeper σ] in
/-- The pool does not count an action as a deletion, and has as many frames after it as before. -/
def Uncounted {α : Type} (action : Action σ α) : Prop := ∀ pool, (left (action pool)).gauge = pool.gauge

section Uncounted

omit [BackingStore σ] [PageKeeper σ]

variable {α β : Type} {action : Action σ α} {page : PageId} {id : FrameId}

theorem Uncounted.pure (value : α) : Uncounted (Pure.pure value : Action σ α) := fun _ => rfl

theorem Uncounted.throw (failure : Failure) : Uncounted (throw failure : Action σ α) := fun _ => rfl

theorem Uncounted.lift (outcome : Outcome α) : Uncounted (liftM outcome : Action σ α) := by
  intro pool
  cases done : outcome with
  | ok value => rw [lift_ok rfl]; rfl
  | error failure => rw [lift_error rfl]; rfl

theorem Uncounted.modify {change : Pool σ → Pool σ} (same : ∀ pool, (change pool).gauge = pool.gauge) :
    Uncounted (modify change : Action σ PUnit) := same

theorem Uncounted.bind {rest : α → Action σ β} (first : Uncounted action) (second : ∀ value, Uncounted (rest value)) :
    Uncounted (action >>= rest) := by
  intro pool
  have before := first pool
  cases run : action pool with
  | ok value middle =>
    rw [run] at before
    rw [bind_ok run]
    exact (second value middle).trans before
  | error failure later =>
    rw [run] at before
    rwa [bind_error run]

theorem Uncounted.get_bind {rest : Pool σ → Action σ β} (second : ∀ pool, Uncounted (rest pool)) :
    Uncounted (get >>= rest) := fun pool => second pool pool

theorem Uncounted.frame (id : FrameId) : Uncounted (Pool.frame id : Action σ Frame) := by
  refine .get_bind fun pool => ?_
  split
  · exact .pure _
  · exact .throw _

theorem Uncounted.setFrame (id : FrameId) (frame : Frame) : Uncounted (Pool.setFrame id frame : Action σ Unit) :=
  .modify fun _ => congrArg (Prod.mk _) (Array.size_setIfInBounds ..)

theorem Uncounted.updateReplacer (change : LruK → Outcome LruK) :
    Uncounted (Pool.updateReplacer change : Action σ Unit) := by
  intro pool
  rw [Pool.updateReplacer, Pool.get_bind]
  cases changed : change pool.replacer with
  | ok replacer => rw [bind_ok (lift_ok rfl)]; rfl
  | error failure => rw [bind_error (lift_error rfl)]; rfl

theorem Uncounted.overwriteFrame (id : FrameId) (change : Page → Outcome Page) :
    Uncounted (Pool.overwriteFrame id change : Action σ Unit) :=
  .bind (.frame id) fun _ => .bind (.lift _) fun _ => .setFrame id _

theorem Uncounted.setDirty (id : FrameId) : Uncounted (Pool.setDirty id : Action σ Unit) :=
  .bind (.frame id) fun _ => .setFrame id _

theorem Uncounted.settle (answer : Except Error α) : Uncounted (Pool.settle answer : Action σ α) := by
  cases answer with
  | ok value => exact .pure value
  | error error => exact .throw _

theorem Uncounted.pinFrame (id : FrameId) : Uncounted (Pool.pinFrame id : Action σ Unit) := by
  refine .bind (.frame id) fun found => .bind (.lift _) fun pinned => ?_
  split
  · exact .bind (.updateReplacer _) fun _ => .setFrame id _
  · exact .setFrame id _

theorem Uncounted.occupy (id : FrameId) (page : PageId) : Uncounted (Pool.occupy id page : Action σ Unit) :=
  .bind (.frame id) fun _ => .bind (.lift _) fun _ => .bind (.setFrame id _) fun _ =>
    .bind (.modify fun _ => rfl) fun _ => .updateReplacer _

theorem Uncounted.unpin (page : PageId) (dirty : Bool) : Uncounted (Pool.unpin page dirty : Action σ Bool) := by
  refine .get_bind fun pool => ?_
  split
  · exact .pure false
  · rename_i id _
    refine .bind (.frame id) fun found => ?_
    split
    · exact .pure false
    · refine .bind (.setFrame id _) fun _ => ?_
      split
      · refine .get_bind fun pool => ?_
        split
        · exact .bind (.modify fun _ => rfl) fun _ => .pure true
        · exact .throw _
      · exact .pure true

theorem Uncounted.residence (page : PageId) : Uncounted (Pool.residence page : Action σ FrameId) := by
  refine .get_bind fun pool => ?_
  split
  · exact .pure _
  · exact .throw _

theorem Uncounted.touch (page : PageId) : Uncounted (Pool.touch page : Action σ Unit) :=
  .bind (.residence page) .setDirty

variable [BackingStore σ]

theorem Uncounted.request (wanted : Request) : Uncounted (Pool.request wanted : Action σ (Except Error Page)) :=
  fun _ => rfl

theorem Uncounted.save (id : FrameId) (page : PageId) :
    Uncounted (Pool.save id page : Action σ (Except Error Unit)) := by
  refine .bind (.frame id) fun found => .bind (.setFrame id _) fun _ => .bind (.request _) fun answer => ?_
  split
  · exact .bind (.modify fun _ => rfl) fun _ => .pure _
  · exact .bind (.setDirty id) fun _ => .pure _

theorem Uncounted.claimFrame : Uncounted (Pool.claimFrame : Action σ FrameId) := by
  intro pool
  rw [Pool.claimFrame, Pool.get_bind]
  dsimp only
  cases pool.free with
  | cons id rest => rfl
  | nil =>
    cases pool.replacer.victim with
    | none => rfl
    | some id =>
      have cleared : Uncounted (do
          Pool.updateReplacer (·.remove id)
          Pool.setFrame id Frame.empty
          Pool.count fun stats => { stats with evictions := stats.evictions + 1 }
          return id : Action σ FrameId) :=
        .bind (.updateReplacer _) fun _ => .bind (.setFrame id _) fun _ => .bind (.modify fun _ => rfl) fun _ =>
          .pure id
      refine Uncounted.bind (.frame id) (fun found => ?_) pool
      split
      · split
        · exact .bind (.save id _) fun _ => .bind (.settle _) fun _ => .bind (.modify fun _ => rfl) fun _ =>
            cleared
        · exact .bind (.modify fun _ => rfl) fun _ => cleared
      · exact cleared

theorem Uncounted.new : Uncounted (Pool.new : Action σ (PageId × FrameId)) :=
  .bind .claimFrame fun id => .get_bind fun _ => .bind (.lift _) fun _ => .bind (.modify fun _ => rfl) fun _ =>
    .bind (.occupy id _) fun _ => .pure _

theorem Uncounted.fetch (page : PageId) : Uncounted (Pool.fetch page : Action σ FrameId) := by
  refine .get_bind fun pool => ?_
  dsimp only
  split
  · exact fun _ => rfl
  · split
    · exact .bind (.pinFrame _) fun _ => .bind (.updateReplacer _) fun _ => .bind (.modify fun _ => rfl) fun _ =>
        .pure _
    · refine .bind (.modify fun _ => rfl) fun _ => .bind .claimFrame fun id => .bind (.request _) fun answer => ?_
      split
      · exact .bind (.modify fun _ => rfl) fun _ => .throw _
      · exact .bind (.modify fun _ => rfl) fun _ => .bind (.overwriteFrame id _) fun _ =>
          .bind (.occupy id page) fun _ => .pure id

end Uncounted

omit [PageKeeper σ] in
theorem Plain.uncounted {α : Type} {action : Action σ α} (plain : Plain action) : Uncounted action := by
  cases plain with
  | pure value => exact .pure value
  | lift outcome => exact .lift outcome
  | fetch page => exact .fetch page
  | unpin page dirty => exact .unpin page dirty
  | view page look => exact .bind (.residence page) fun id => .bind (.frame id) fun _ => .lift _
  | touch page => exact .touch page
  | edit page change =>
    exact .bind (.touch page) fun _ => .bind (.residence page) fun id => .bind (.frame id) fun _ => .bind (.lift _)
      fun _ => .bind (.setFrame id _) fun _ => .pure _

omit [BackingStore σ] [PageKeeper σ] in
theorem gauge_delete (page : PageId) (pool : Pool σ) :
    (left (Pool.delete page pool)).gauge =
      (pool.stats.deletes + match Pool.delete page pool with | .ok true _ => 1 | _ => 0, pool.size) := by
  have unchanged : pool.gauge = (pool.stats.deletes + 0, pool.size) :=
    congrArg (Prod.mk · pool.size) (UInt64.add_zero _).symm
  cases resident : pool.residents[page]? with
  | none =>
    simp only [Pool.delete, Pool.get_bind, resident]
    rfl
  | some id =>
    simp only [Pool.delete, Pool.get_bind, resident]
    cases found : Pool.frame id pool with
    | error failure middle =>
      have same := Uncounted.frame id pool
      rw [found] at same
      simp only [bind_error found]
      exact same.trans unchanged
    | ok frame middle =>
      have same := Uncounted.frame id pool
      rw [found] at same
      simp only [bind_ok found]
      split
      · exact same.trans unchanged
      · rw [Pool.get_bind]
        cases removed : middle.replacer.remove id with
        | error failure => exact same.trans unchanged
        | ok replacer =>
          obtain ⟨deletes, size⟩ := Prod.mk.inj same
          exact Prod.ext (congrArg (· + 1) deletes) ((Array.size_setIfInBounds ..).trans size)

theorem Leaves.gauged {α : Type} {action : Action σ α} {pool : Pool σ} {marks : List Mark}
    (leaves : Leaves action pool marks) :
    (left (action pool)).gauge = (pool.stats.deletes + .ofNat (marks.countP Mark.isGone), pool.size) := by
  have unchanged : ∀ pool : Pool σ, pool.gauge = (pool.stats.deletes + .ofNat 0, pool.size) := fun pool =>
    congrArg (Prod.mk · pool.size) (UInt64.add_zero _).symm
  -- Induction on the record: of the steps only a deletion moves the counter, and a pin that is given back does not.
  induction leaves with
  | plain plain => exact (plain.uncounted _).trans (unchanged _)
  | new_ok done => exact (Uncounted.new _).trans (unchanged _)
  | new_error done => exact (Uncounted.new _).trans (unchanged _)
  | @delete_ok pool later page gone done =>
    have counted := gauge_delete page pool
    rw [done] at counted ⊢
    rw [counted]
    cases gone <;> rfl
  | @delete_error pool later page failure done =>
    have counted := gauge_delete page pool
    rw [done] at counted ⊢
    exact counted
  | bind_ok first done second ih_first ih_second =>
    rw [done] at ih_first
    obtain ⟨deletes, size⟩ := Prod.mk.inj ih_first
    rw [Pool.bind_ok done, ih_second, List.countP_append, UInt64.ofNat_add, ← UInt64.add_assoc]
    exact Prod.ext (congrArg (· + _) deletes) size
  | bind_error first done ih =>
    rw [done] at ih
    rwa [Pool.bind_error done]
  | @keeping α page action pool marks inner ih =>
    rw [← ih, Pool.keeping]
    cases action pool with
    | ok value middle => exact Uncounted.bind (.unpin page false) (fun _ => .pure value) middle
    | error failure middle => exact Uncounted.bind (.unpin page false) (fun _ => .throw failure) middle
  | @entrusting α page action pool marks inner ih =>
    rw [← ih, Pool.entrusting]
    cases action pool with
    | ok value middle => rfl
    | error failure middle => exact Uncounted.bind (.unpin page false) (fun _ => .throw failure) middle

/-- The record of an action has as many deletions in it as the pool counts. -/
theorem Leaves.counted {α : Type} {action : Action σ α} {pool : Pool σ} {marks : List Mark}
    (leaves : Leaves action pool marks) :
    (left (action pool)).stats.deletes = pool.stats.deletes + .ofNat (marks.countP Mark.isGone) :=
  congrArg Prod.fst leaves.gauged

theorem Leaves.size {α : Type} {action : Action σ α} {pool : Pool σ} {marks : List Mark}
    (leaves : Leaves action pool marks) : (left (action pool)).size = pool.size :=
  congrArg Prod.snd leaves.gauged

end Pool

end PagedIndex
