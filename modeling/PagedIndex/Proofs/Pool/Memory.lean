import Mathlib
import PagedIndex.Proofs.Ascent
import PagedIndex.Proofs.Pool.Ease
import PagedIndex.Proofs.Pool.Marks

/-!
# Working in a pool as in a memory

An operation that pins pages while it needs them sees of the pool only what the pages show, its own pins and
the number of the next page. Each step is a step on these three, or fails and leaves them as they were. Beside
them a memory keeps the record of the pages that were made and deleted so far, which no step looks at. What a memory
has of a page can be counted on if the page is pinned, if it holds anything, or if it was firm from the start and not
deleted since.
-/

namespace PagedIndex

/-- What an operation under way sees, and the pages it has pinned, each as often as it has pinned it. -/
structure Memory extends Annals where
  pins : Multiset PageId
  /-- The pages that were firm when the operation began. -/
  firm : PageId → Prop

namespace Memory

variable (memory : Memory) {pins : Multiset PageId}

def pin (page : PageId) : Memory := { memory with pins := page ::ₘ memory.pins }

def write (page : PageId) (bytes : Page) : Memory := { memory with toPages := memory.toPages.write page bytes }

/-- The memory after the next page was made and pinned. -/
def grow : Memory :=
  { memory.pin ⟨memory.next⟩ with next := memory.next + 1, marks := memory.marks ++ [.made ⟨memory.next⟩] }

def drop (page : PageId) (gone : Bool) (bytes : Page) (seen : Pages) : Memory :=
  { memory with toAnnals := memory.toAnnals.drop page gone bytes seen }

/-- What the memory has of the page is what is seen of it. -/
def Sure (page : PageId) : Prop :=
  (memory.firm page ∧ page ∉ droppedIn memory.marks) ∨ page ∈ memory.pins ∨ memory.content page ≠ Page.zero

/-- A memory to which this was added since. -/
structure Follows (marks : List Mark) (later : Memory) : Prop where
  marks : later.marks = memory.marks ++ marks
  firm : later.firm = memory.firm

@[simp] theorem content_write (page other : PageId) (bytes : Page) :
    (memory.write page bytes).content other = if other = page then bytes else memory.content other :=
  memory.toPages.content_write page other bytes

@[simp] theorem next_write (page : PageId) (bytes : Page) : (memory.write page bytes).next = memory.next := rfl

@[simp] theorem pins_write (page : PageId) (bytes : Page) : (memory.write page bytes).pins = memory.pins := rfl

@[simp] theorem content_pin (page other : PageId) : (memory.pin page).content other = memory.content other := rfl

@[simp] theorem next_pin (page : PageId) : (memory.pin page).next = memory.next := rfl

@[simp] theorem pins_pin (page : PageId) : (memory.pin page).pins = page ::ₘ memory.pins := rfl

@[simp] theorem content_grow (page : PageId) : memory.grow.content page = memory.content page := rfl

@[simp] theorem next_grow : memory.grow.next = memory.next + 1 := rfl

@[simp] theorem pins_grow : memory.grow.pins = ⟨memory.next⟩ ::ₘ memory.pins := rfl

theorem Follows.of_same {memory later : Memory} (marks : later.marks = memory.marks) (firm : later.firm = memory.firm) :
    memory.Follows [] later := ⟨by rw [marks, List.append_nil], firm⟩

theorem Follows.refl : memory.Follows [] memory := .of_same rfl rfl

theorem Follows.trans {memory middle later : Memory} {marks more : List Mark} (first : memory.Follows marks middle)
    (second : middle.Follows more later) : memory.Follows (marks ++ more) later :=
  ⟨by rw [second.marks, first.marks, List.append_assoc], second.firm.trans first.firm⟩

theorem write_self {page : PageId} {bytes : Page} (same : bytes = memory.content page) :
    memory.write page bytes = memory := by
  rw [write, Pages.write, same, Function.update_eq_self]

theorem pin_pin (first second : PageId) :
    { (memory.pin first).pin second with pins := second ::ₘ memory.pins } = memory.pin second := rfl

end Memory

namespace Pool

/-- What an action counts on, and whether it may be that it runs out of numbers for new pages. -/
structure Terms where
  ease : Prop
  last : Prop

/-- There are numbers for some more pages, unless it is allowed for that they run out. -/
def Terms.Room (terms : Terms) (memory : Memory) (pages : Nat) : Prop :=
  terms.last ∨ memory.next.toNat + pages < wordBound

theorem Terms.Room.of_le {terms : Terms} {memory later : Memory} {many few : Nat} (room : terms.Room memory many)
    (less : later.next.toNat + few ≤ memory.next.toNat + many) : terms.Room later few :=
  room.imp_right (Nat.lt_of_le_of_lt less)

theorem Terms.Room.of_nothing {memory : Memory} {pages : Nat} : Terms.Room ⟨False, True⟩ memory pages :=
  .inl trivial

variable {σ α β : Type} [BackingStore σ] [PageKeeper σ] {leases : List Lease} {ease : Prop} {terms : Terms}
  {memory : Memory} {page : PageId} {ok : α → Memory → Prop} {failed : Memory → Prop} {pool later : Pool σ}

/-- A pool that shows a memory, and is at ease if that is asked of it. -/
structure Models (leases : List Lease) (ease : Prop) (memory : Memory) (pool : Pool σ) : Prop where
  sound : Sound leases (memory.pins.count ·) pool
  sure : ∀ page, memory.Sure page → Firm (owedBy leases) pool page ∧ pool.visible page = memory.content page
  next : pool.next = memory.next
  eased : ease → Eased leases pool

/-- What an operation sees of a pool in which it begins, and has these pins. -/
def outset (leases : List Lease) (pins : Multiset PageId) (pool : Pool σ) : Memory :=
  ⟨⟨pool.pages, []⟩, pins, Firm (owedBy leases) pool⟩

theorem Sound.models {pins : Multiset PageId} (sound : Sound leases (pins.count ·) pool)
    (written : ∀ page ∈ pins, pool.visible page ≠ Page.zero) (eased : ease → Eased leases pool) :
    Models leases ease (pool.outset leases pins) pool where
  sound := sound
  sure page sure := by
    refine ⟨?_, rfl⟩
    rcases sure with ⟨firm, -⟩ | pinned | holds
    · exact firm
    · exact sound.coherent.firm (written page pinned)
    · exact sound.coherent.firm holds
  next := rfl
  eased := eased

/-- How an action may end: with an answer or a failure, in a pool that shows a memory as it should be, or
because the last number for a page is taken. With ease there is always an answer, as long as there are numbers
for new pages. -/
inductive Ends (leases : List Lease) (terms : Terms) (ok : α → Memory → Prop) (failed : Memory → Prop) :
    Result σ α → Prop where
  | ok {value : α} {later : Pool σ} {next : Memory} (models : Models leases terms.ease next later)
      (holds : ok value next) : Ends leases terms ok failed (.ok value later)
  | error {failure : Failure} {later : Pool σ} {next : Memory} (models : Models leases terms.ease next later)
      (holds : failed next) (hindered : ¬ terms.ease) : Ends leases terms ok failed (.error failure later)
  | overflow {later : Pool σ} {spare : List FrameId} (kept : Bookkept spare later) (last : terms.last)
      (full : ¬ later.next.toNat + 1 < wordBound) : Ends leases terms ok failed (.error (.violation .overflow) later)

/-- Only for the pages that clients have pinned the pool refuses to delete a page. -/
def Obliges (leases : List Lease) (marks : List Mark) : Prop :=
  ∀ page seen, Mark.dropped page false seen ∈ marks → 0 < leased leases page

/-- The action ends as it should in every pool that shows a memory, and the record of it is added to the memory. -/
def Runs (leases : List Lease) (terms : Terms) (action : Action σ α) (memory : Memory) (ok : α → Memory → Prop)
    (failed : Memory → Prop) : Prop :=
  ∀ pool, Models leases terms.ease memory pool → ∃ marks, Leaves action pool marks ∧ Obliges leases marks ∧
    Ends leases terms (fun value next => memory.Follows marks next ∧ ok value next)
      (fun next => memory.Follows marks next ∧ failed next) (action pool)

/-- Nothing was asked of the store, and there are as many frames as before. -/
structure Modest (pool later : Pool σ) : Prop where
  disk : later.disk = pool.disk
  size : later.frames.size = pool.frames.size

/-- The action cannot fail: it has this answer in every pool that shows the memory, which shows another one then, and
it neither makes nor deletes a page nor asks for one. -/
def Gives (leases : List Lease) (action : Action σ α) (memory : Memory) (value : α) (next : Memory) : Prop :=
  ∀ ease pool, Models leases ease memory pool →
    ∃ later, action pool = .ok value later ∧ Leaves action pool [] ∧ Models leases ease next later ∧ Modest pool later

omit [BackingStore σ] [PageKeeper σ] in
theorem Modest.refl (pool : Pool σ) : Modest pool pool := ⟨rfl, rfl⟩

omit [BackingStore σ] [PageKeeper σ] in
theorem Modest.trans {middle : Pool σ} (first : Modest pool middle) (second : Modest middle later) :
    Modest pool later :=
  ⟨second.disk.trans first.disk, second.size.trans first.size⟩

omit [BackingStore σ] [PageKeeper σ] in
theorem Modest.place (pool : Pool σ) (id : FrameId) (frame : Frame) : Modest pool (pool.place id frame) :=
  ⟨rfl, Array.size_setIfInBounds ..⟩

omit [BackingStore σ] [PageKeeper σ] in
theorem Unpinned.modest {dirty answer : Bool} (unpinned : Unpinned pool page dirty (.ok answer later)) :
    Modest pool later := by
  cases unpinned with
  | absent => exact .refl pool
  | unpinned => exact .refl pool
  | released => exact ⟨rfl, Array.size_setIfInBounds ..⟩

/-! ### Composing -/

theorem Obliges.none : Obliges leases [] := fun _ _ => nofun

theorem Obliges.append {marks more : List Mark} (first : Obliges leases marks) (second : Obliges leases more) :
    Obliges leases (marks ++ more) := fun page seen member =>
  (List.mem_append.mp member).elim (first page seen) (second page seen)

theorem Ends.mono {other : α → Memory → Prop} {lost : Memory → Prop} {result : Result σ α}
    (ends : Ends leases terms ok failed result) (better : ∀ value next, ok value next → other value next)
    (worse : ∀ next, failed next → lost next) : Ends leases terms other lost result := by
  cases ends with
  | ok models holds => exact .ok models (better _ _ holds)
  | error models holds hindered => exact .error models (worse _ holds) hindered
  | overflow kept last full => exact .overflow kept last full

/-- A step that neither makes nor deletes a page adds nothing to the record. -/
theorem Runs.plain {action : Action σ α} (plain : Plain action)
    (ends : ∀ pool, Models leases terms.ease memory pool →
      Ends leases terms (fun value next => memory.Follows [] next ∧ ok value next)
        (fun next => memory.Follows [] next ∧ failed next) (action pool)) :
    Runs leases terms action memory ok failed := fun pool models =>
  ⟨[], .plain plain, .none, ends pool models⟩

theorem Runs.pure {value : α} (holds : ok value memory) :
    Runs leases terms (Pure.pure value : Action σ α) memory ok failed :=
  .plain (.pure value) fun _ models => .ok models ⟨.refl memory, holds⟩

theorem Runs.bind {action : Action σ α} {rest : α → Action σ β} {done : β → Memory → Prop}
    (first : Runs leases terms action memory ok failed)
    (second : ∀ value next, ok value next → Runs leases terms (rest value) next done failed) :
    Runs leases terms (action >>= rest) memory done failed := by
  intro pool models
  obtain ⟨marks, left, obliges, ends⟩ := first pool models
  generalize run : action pool = result at ends
  cases ends with
  | @ok value later next models holds =>
    obtain ⟨follows, holds⟩ := holds
    obtain ⟨more, left_more, obliges_more, ends⟩ := second _ _ holds _ models
    refine ⟨marks ++ more, .bind_ok left run left_more, obliges.append obliges_more, ?_⟩
    rw [bind_ok run]
    exact ends.mono (fun _ _ holds => ⟨follows.trans holds.1, holds.2⟩) fun _ holds =>
      ⟨follows.trans holds.1, holds.2⟩
  | error models holds hindered =>
    refine ⟨marks, .bind_error left run, obliges, ?_⟩
    rw [bind_error run]
    exact .error models holds hindered
  | overflow kept last full =>
    refine ⟨marks, .bind_error left run, obliges, ?_⟩
    rw [bind_error run]
    exact .overflow kept last full

theorem Gives.runs {action : Action σ α} {found : α} {next : Memory} (gives : Gives leases action memory found next)
    (follows : memory.Follows [] next) :
    Runs leases terms action memory (fun value after => value = found ∧ after = next) failed := by
  intro pool models
  obtain ⟨later, done, left, ends, -⟩ := gives _ pool models
  refine ⟨[], left, .none, ?_⟩
  rw [done]
  exact .ok ends ⟨follows, rfl, rfl⟩

theorem Gives.pure (value : α) : Gives leases (Pure.pure value : Action σ α) memory value memory :=
  fun _ pool models => ⟨pool, rfl, .plain (.pure value), models, .refl pool⟩

theorem Gives.lift {outcome : Outcome α} {found : α} (done : outcome = .ok found) :
    Gives leases (liftM outcome : Action σ α) memory found memory :=
  fun _ pool models => ⟨pool, lift_ok done, .plain (.lift outcome), models, .refl pool⟩

theorem Gives.step {action : Action σ α} {rest : α → Action σ β} {found : α} {answer : β} {next last : Memory}
    (first : Gives leases action memory found next) (second : Gives leases (rest found) next answer last) :
    Gives leases (action >>= rest) memory answer last := by
  intro ease pool models
  obtain ⟨middle, done, left, models, modest⟩ := first ease pool models
  obtain ⟨later, done_rest, left_rest, models, modest_rest⟩ := second ease middle models
  exact ⟨later, (bind_ok done).trans done_rest, .bind_ok left done left_rest, models, modest.trans modest_rest⟩

/-- What is done in one case only, before the rest that both have in common. -/
theorem Gives.branch {condition : Prop} [Decidable condition] {first : Action σ Unit} {rest : Unit → Action σ β}
    {answer : β} {last : Memory} (next : Memory) (taken : condition → Gives leases first memory () next)
    (skipped : ¬ condition → memory = next) (second : Gives leases (rest ()) next answer last) :
    Gives leases (if condition then first >>= rest else rest ()) memory answer last := by
  by_cases holds : condition
  · rw [if_pos holds]
    exact (taken holds).step second
  · rw [if_neg holds, skipped holds]
    exact second

theorem Runs.mono {action : Action σ α} {other : α → Memory → Prop} {lost : Memory → Prop}
    (runs : Runs leases terms action memory ok failed) (better : ∀ value next, ok value next → other value next)
    (worse : ∀ next, failed next → lost next) : Runs leases terms action memory other lost := by
  intro pool models
  obtain ⟨marks, left, obliges, ends⟩ := runs pool models
  exact ⟨marks, left, obliges, ends.mono (fun value next holds => ⟨holds.1, better value next holds.2⟩)
    fun next holds => ⟨holds.1, worse next holds.2⟩⟩

/-- With ease there is always an answer, if the numbers of pages do not run out. -/
theorem Runs.total {last : Prop} {action : Action σ α} (runs : Runs leases ⟨True, last⟩ action memory ok failed)
    (models : Models leases True memory pool) (room : last → (left (action pool)).next.toNat + 1 < wordBound) :
    ∃ value later next, action pool = .ok value later ∧ Models leases True next later ∧ ok value next := by
  obtain ⟨_, _, _, ends⟩ := runs pool models
  generalize action pool = result at ends room
  cases ends with
  | ok models holds => exact ⟨_, _, _, rfl, models, holds.2⟩
  | error _ _ hindered => exact absurd trivial hindered
  | overflow _ last full => exact absurd (room last) full

theorem Runs.step {action : Action σ α} {rest : α → Action σ β} {found : α} {next : Memory}
    {done : β → Memory → Prop}
    (first : Runs leases terms action memory (fun value after => value = found ∧ after = next) failed)
    (second : Runs leases terms (rest found) next done failed) :
    Runs leases terms (action >>= rest) memory done failed := by
  refine first.bind fun value after known => ?_
  obtain ⟨rfl, rfl⟩ := known
  exact second

theorem Runs.finish {action : Action σ α} {found : α} {next : Memory}
    (last : Runs leases terms action memory (fun value after => value = found ∧ after = next) failed)
    (holds : ok found next) : Runs leases terms action memory ok failed := by
  refine last.mono (fun value after known => ?_) fun _ lost => lost
  obtain ⟨rfl, rfl⟩ := known
  exact holds

theorem Runs.lift {outcome : Outcome α} {found : α} (done : outcome = .ok found) :
    Runs leases terms (liftM outcome : Action σ α) memory (fun value next => value = found ∧ next = memory) failed :=
  (Gives.lift done).runs (.refl memory)

theorem Runs.refuse {outcome : Outcome α} {error : Error} (done : outcome = .error (.error error))
    (refused : failed memory) (hindered : ¬ terms.ease) :
    Runs leases terms (liftM outcome : Action σ α) memory ok failed := by
  refine .plain (.lift outcome) fun pool models => ?_
  rw [lift_error done]
  exact .error models ⟨.refl memory, refused⟩ hindered

theorem Runs.settle {outcome : Outcome α} {refusal : Error → Prop} {holds : α → Prop}
    (settles : Settles refusal holds outcome) (refused : failed memory)
    (hindered : ∀ error, refusal error → ¬ terms.ease) :
    Runs leases terms (liftM outcome : Action σ α) memory (fun value next => holds value ∧ next = memory) failed := by
  cases settles with
  | ok right => exact (Runs.lift rfl).finish ⟨right, rfl⟩
  | error reason => exact Runs.refuse rfl refused (hindered _ reason)

/-! ### Pins -/

omit [BackingStore σ] [PageKeeper σ] in
theorem count_pin (pins : Multiset PageId) (page other : PageId) :
    (page ::ₘ pins).count other = pins.count other + one page other := by
  simp only [Multiset.count_cons, one, eq_comm]

omit [BackingStore σ] [PageKeeper σ] in
theorem issued_isValid {next : UInt32} (issued : page.number < next) : page.isValid = true := by
  have differ : page.number ≠ 4294967295 := by
    rintro same
    have bound := next.toNat_lt
    rw [same, UInt32.lt_iff_toNat_lt] at issued
    change 4294967295 < next.toNat at issued
    omega
  simpa [PageId.isValid, PageId.invalid] using differ

/-- A quiet move of the pool pins what it is to pin, and shows the same pages. -/
theorem Models.quiet (models : Models leases ease memory pool) {gain : PageId → Nat}
    (quiet : Quiet (owedBy leases) gain pool later) {pins : Multiset PageId} {next : UInt32} {marks : List Mark}
    (joins : ∀ other ∈ pins, Firm (owedBy leases) pool other ∧ pool.visible other = memory.content other)
    (counts : ∀ other, pins.count other = memory.pins.count other + gain other) (numbered : later.next = next)
    (eased : ease → Eased leases later) (same : droppedIn marks = droppedIn memory.marks) :
    Models leases ease ⟨⟨⟨memory.content, next⟩, marks⟩, pins, memory.firm⟩ later where
  sound := by
    have sound := models.sound.quiet quiet
    rwa [show (fun other => memory.pins.count other + gain other) = (pins.count ·) from
      funext fun other => (counts other).symm] at sound
  sure other sure := by
    obtain ⟨firm, seen⟩ : Firm (owedBy leases) pool other ∧ pool.visible other = memory.content other := by
      rcases sure with ⟨firm, stays⟩ | pinned | written
      · exact models.sure other (.inl ⟨firm, by rwa [← same]⟩)
      · exact joins other pinned
      · exact models.sure other (.inr (.inr written))
    obtain ⟨still, shown⟩ := quiet.lasting other firm
    exact ⟨still, shown.trans seen⟩
  next := numbered
  eased := eased

/-- A move that pins nothing. -/
theorem Models.calm (models : Models leases ease memory pool) (quiet : Quiet (owedBy leases) (fun _ => 0) pool later)
    (next : later.next = pool.next) (eased : ease → Eased leases later) : Models leases ease memory later :=
  models.quiet quiet (fun other pinned => models.sure other (.inr (.inl pinned))) (fun _ => rfl)
    (next.trans models.next) eased rfl

theorem Models.fetched (models : Models leases ease memory pool) {id : FrameId}
    (fetched : Fetched pool page (.ok id later)) (written : memory.content page ≠ Page.zero)
    (eased : ease → Eased leases later) : Models leases ease (memory.pin page) later := by
  obtain ⟨quiet, next, _⟩ := fetched.quiet_ok models.sound.coherent
  have sure : ∀ other ∈ page ::ₘ memory.pins, memory.Sure other := fun other pinned => by
    rcases Multiset.mem_cons.mp pinned with rfl | pinned
    · exact .inr (.inr written)
    · exact .inr (.inl pinned)
  exact models.quiet quiet (fun other pinned => models.sure other (sure other pinned)) (count_pin memory.pins page)
    (next.trans models.next) eased rfl

theorem Runs.fetch (refused : failed memory) (issued : page.number < memory.next) (few : memory.pins.card ≤ 2)
    (unpinned : page ∉ memory.pins) (written : memory.content page ≠ Page.zero) :
    Runs leases terms (Pool.fetch page : Action σ FrameId) memory (fun _ next => next = memory.pin page) failed := by
  refine .plain (.fetch page) fun pool models => ?_
  have fetched := models.sound.coherent.kept.fetch page
  have calm := fun calm => (models.eased calm).fetched models.sound (Nat.lt_succ_of_le few) unpinned
    (issued_isValid issued) (by rw [models.next]; exact issued) fetched
  generalize Pool.fetch page pool = result at fetched calm
  match result, fetched with
  | .ok id later, fetched => exact .ok (models.fetched fetched written (eased_of_ok calm)) ⟨.of_same rfl rfl, rfl⟩
  | .error (.error error) later, fetched =>
    obtain ⟨quiet, next⟩ := fetched.quiet_error models.sound.coherent
    have hindered := hindered_of_error calm
    exact .error (models.calm quiet next fun holds => absurd holds hindered) ⟨.refl memory, refused⟩ hindered
  | .error (.violation violation) later, fetched =>
    have hindered := hindered_of_error calm
    cases fetched with
    | full => exact .error models ⟨.refl memory, refused⟩ hindered
    | refused _ claimed => cases claimed

theorem Models.made (models : Models leases ease memory pool) {id : FrameId} (made : Made pool (.ok (page, id) later))
    (eased : ease → Eased leases later) : page = ⟨memory.next⟩ ∧ page.isValid = true ∧
      memory.next < memory.next + 1 ∧ Models leases ease memory.grow later := by
  obtain ⟨quiet, number, next, less, resident⟩ := made.quiet_ok models.sound.coherent
  have named : page = ⟨memory.next⟩ := by
    cases page
    exact congrArg PageId.mk (number.trans models.next)
  subst named
  obtain ⟨firm, blank⟩ := models.sound.coherent.next_firm number
  -- A page that was not made yet shows zeros, so the memory has nothing else of it.
  have known : memory.content ⟨memory.next⟩ = Page.zero := by
    by_contra written
    exact written ((models.sure _ (.inr (.inr written))).2.symm.trans blank)
  have joins : ∀ other ∈ ⟨memory.next⟩ ::ₘ memory.pins,
      Firm (owedBy leases) pool other ∧ pool.visible other = memory.content other := fun other pinned => by
    rcases Multiset.mem_cons.mp pinned with rfl | pinned
    · exact ⟨firm, blank.trans known.symm⟩
    · exact models.sure other (.inr (.inl pinned))
  rw [models.next] at less next
  have grown : Models leases ease memory.grow later :=
    models.quiet quiet joins (count_pin memory.pins ⟨memory.next⟩) next eased (by simp [droppedIn, Mark.dropped?])
  exact ⟨rfl, quiet.coherent.kept.isValid resident, lt_succ_of_room less, grown⟩

theorem Runs.new (refused : failed memory) (few : memory.pins.card ≤ 2) (room : terms.Room memory 1) :
    Runs leases terms (Pool.new : Action σ (PageId × FrameId)) memory
      (fun made next => made.1 = ⟨memory.next⟩ ∧ made.1.isValid = true ∧ memory.next < memory.next + 1 ∧
        next = memory.grow) failed := by
  intro pool models
  have made := models.sound.coherent.kept.new
  have calm := fun calm => (models.eased calm).made models.sound (Nat.lt_succ_of_le few) made
  generalize run : Pool.new pool = result at made calm
  match result, made with
  | .ok (page, id) later, made =>
    refine ⟨_, .new_ok run, fun _ _ => by simp, ?_⟩
    have eased : terms.ease → Eased leases later := fun holds => by
      rcases calm holds with ⟨_, _, same, eased⟩ | ⟨_, _, same, -⟩
      · cases same
        exact eased
      · cases same
    obtain ⟨rfl, valid, less, ends⟩ := models.made made eased
    exact .ok ends ⟨⟨rfl, rfl⟩, rfl, valid, less, rfl⟩
  | .error (.error error) later, made =>
    refine ⟨[], .new_error run, .none, ?_⟩
    obtain ⟨quiet, next⟩ := made.quiet_error models.sound.coherent
    have hindered : ¬ terms.ease := fun holds => by
      rcases calm holds with ⟨_, _, same, -⟩ | ⟨_, _, same, -⟩ <;> cases same
    exact .error (models.calm quiet next fun holds => absurd holds hindered) ⟨.refl memory, refused⟩ hindered
  | .error (.violation violation) later, made =>
    refine ⟨[], .new_error run, .none, ?_⟩
    cases made with
    | refused claimed => cases claimed
    | exhausted claimed last =>
      have next : later.next = pool.next := claimed.next_eq
      refine .overflow (claimed.kept_ok models.sound.coherent.kept) (room.resolve_right ?_) (by rwa [next])
      rwa [← models.next]

theorem Gives.unpin {gain : Multiset PageId} (held : memory.pins = page ::ₘ gain) :
    Gives leases (Pool.unpin page false : Action σ Bool) memory true { memory with pins := gain } := by
  intro ease pool models
  obtain ⟨later, done, sound, lasting, _, next⟩ :=
    models.sound.give_back (fun other => by rw [held, count_pin]) false
  have unpinned := models.sound.coherent.kept.unpin page false
  rw [done] at unpinned
  refine ⟨later, done, .plain (.unpin page false), ⟨sound, fun other sure => ?_, next.trans models.next,
    fun holds => (models.eased holds).unpinned unpinned⟩, unpinned.modest⟩
  have before : memory.Sure other :=
    sure.imp_right (.imp_left fun pinned => by rw [held]; exact Multiset.mem_cons_of_mem pinned)
  obtain ⟨firm, seen⟩ := models.sure other before
  obtain ⟨still, shown⟩ := lasting other firm
  exact ⟨still, shown.trans seen⟩

theorem Models.unpin {gain : Multiset PageId} (models : Models leases ease memory pool)
    (held : memory.pins = page ::ₘ gain) :
    ∃ later, Pool.unpin page false pool = .ok true later ∧ Models leases ease { memory with pins := gain } later ∧
      Modest pool later := by
  obtain ⟨later, done, _, ends⟩ := Gives.unpin held ease pool models
  exact ⟨later, done, ends⟩

theorem Runs.unpin {gain : Multiset PageId} (held : memory.pins = page ::ₘ gain) :
    Runs leases terms (Pool.unpin page false : Action σ Bool) memory
      (fun value next => value = true ∧ next = { memory with pins := gain }) failed :=
  (Gives.unpin held).runs (.of_same rfl rfl)

section Returning

omit [BackingStore σ] [PageKeeper σ]

variable {action : Action σ α} {middle later : Pool σ} {value : α} {failure : Failure} {answer : Bool}

theorem keeping_ok (done : action pool = .ok value middle)
    (unpinned : Pool.unpin page false middle = .ok answer later) :
    Pool.keeping page action pool = .ok value later := by
  rw [Pool.keeping, done]
  exact bind_ok unpinned

theorem keeping_error (failed : action pool = .error failure middle)
    (unpinned : Pool.unpin page false middle = .ok answer later) :
    Pool.keeping page action pool = .error failure later := by
  rw [Pool.keeping, failed]
  exact bind_ok unpinned

theorem entrusting_ok (done : action pool = .ok value middle) :
    Pool.entrusting page action pool = .ok value middle := by
  rw [Pool.entrusting, done]

theorem entrusting_error (failed : action pool = .error failure middle)
    (unpinned : Pool.unpin page false middle = .ok answer later) :
    Pool.entrusting page action pool = .error failure later := by
  rw [Pool.entrusting, failed]
  exact bind_ok unpinned

end Returning

theorem Gives.keeping {action : Action σ α} {found : α} {next : Memory} (gain : Multiset PageId)
    (inner : Gives leases action memory found next) (held : next.pins = page ::ₘ gain) :
    Gives leases (Pool.keeping page action) memory found { next with pins := gain } := by
  intro ease pool models
  obtain ⟨middle, done, left, models, modest⟩ := inner ease pool models
  obtain ⟨later, unpinned, ends, modest_rest⟩ := models.unpin held
  exact ⟨later, keeping_ok done unpinned, .keeping left, ends, modest.trans modest_rest⟩

omit [BackingStore σ] [PageKeeper σ] in
theorem Bookkept.unpin_ok {spare : List FrameId} (kept : Bookkept spare pool) (page : PageId) :
    ∃ answer later, Pool.unpin page false pool = .ok answer later ∧ Bookkept spare later ∧
      later.next = pool.next := by
  have unpinned := kept.unpin page false
  generalize Pool.unpin page false pool = result at unpinned
  cases unpinned with
  | absent => exact ⟨_, _, rfl, kept, rfl⟩
  | unpinned => exact ⟨_, _, rfl, kept, rfl⟩
  | released seat pinned => exact ⟨_, _, rfl, kept.released seat pinned false, rfl⟩

/-- The pins that are left may be others after a failure than after an answer. -/
theorem Runs.keeping {action : Action σ α} (gain rest : Multiset PageId)
    (inner : Runs leases terms action memory
      (fun value next => next.pins = page ::ₘ gain ∧ ok value { next with pins := gain })
      (fun next => next.pins = page ::ₘ rest ∧ failed { next with pins := rest })) :
    Runs leases terms (Pool.keeping page action) memory ok failed := by
  intro pool models
  obtain ⟨marks, left, obliges, ends⟩ := inner pool models
  refine ⟨marks, .keeping left, obliges, ?_⟩
  generalize run : action pool = result at ends
  -- The pin is given back however the action ends.
  cases ends with
  | ok models holds =>
    obtain ⟨follows, held, holds⟩ := holds
    obtain ⟨later, done, ends, -⟩ := models.unpin held
    rw [keeping_ok run done]
    exact .ok ends ⟨⟨follows.marks, follows.firm⟩, holds⟩
  | error models holds hindered =>
    obtain ⟨follows, held, holds⟩ := holds
    obtain ⟨later, done, ends, -⟩ := models.unpin held
    rw [keeping_error run done]
    exact .error ends ⟨⟨follows.marks, follows.firm⟩, holds⟩ hindered
  | overflow kept last full =>
    obtain ⟨answer, later, done, kept, next⟩ := kept.unpin_ok page
    rw [keeping_error run done]
    exact .overflow kept last (by rwa [next])

theorem Runs.entrusting {action : Action σ α} (gain : Multiset PageId)
    (inner : Runs leases terms action memory ok
      (fun next => next.pins = page ::ₘ gain ∧ failed { next with pins := gain })) :
    Runs leases terms (Pool.entrusting page action) memory ok failed := by
  intro pool models
  obtain ⟨marks, left, obliges, ends⟩ := inner pool models
  refine ⟨marks, .entrusting left, obliges, ?_⟩
  generalize run : action pool = result at ends
  cases ends with
  | ok models holds =>
    rw [entrusting_ok run]
    exact .ok models holds
  | error models holds hindered =>
    obtain ⟨follows, held, holds⟩ := holds
    obtain ⟨later, done, ends, -⟩ := models.unpin held
    rw [entrusting_error run done]
    exact .error ends ⟨⟨follows.marks, follows.firm⟩, holds⟩ hindered
  | overflow kept last full =>
    obtain ⟨answer, later, done, kept, next⟩ := kept.unpin_ok page
    rw [entrusting_error run done]
    exact .overflow kept last (by rwa [next])

theorem Runs.holding {action : Action σ α} (gain rest : Multiset PageId) (refused : failed memory)
    (issued : page.number < memory.next) (few : memory.pins.card ≤ 2) (unpinned : page ∉ memory.pins)
    (written : memory.content page ≠ Page.zero)
    (inner : Runs leases terms action (memory.pin page)
      (fun value next => next.pins = page ::ₘ gain ∧ ok value { next with pins := gain })
      (fun next => next.pins = page ::ₘ rest ∧ failed { next with pins := rest })) :
    Runs leases terms (Pool.holding page action) memory ok failed := by
  refine (Runs.fetch refused issued few unpinned written).bind fun id next pinned => ?_
  subst pinned
  exact Runs.keeping gain rest inner

theorem Runs.looking {action : Action σ α} {holds : α → Prop} (issued : page.number < memory.next)
    (few : memory.pins.card ≤ 2) (unpinned : page ∉ memory.pins) (written : memory.content page ≠ Page.zero)
    (inner : Runs leases terms action (memory.pin page) (fun value next => holds value ∧ next = memory.pin page)
      fun next => next = memory.pin page) :
    Runs leases terms (Pool.holding page action) memory (fun value next => holds value ∧ next = memory)
      fun next => next = memory := by
  refine Runs.holding memory.pins memory.pins rfl issued few unpinned written
    (inner.mono (fun _ next known => ?_) fun next same => ?_)
  · obtain ⟨holds, rfl⟩ := known
    exact ⟨rfl, holds, rfl⟩
  · subst same
    exact ⟨rfl, rfl⟩

theorem Runs.foldUp (Inv : Nat → α → Prop) {step : Nat → α → Action σ α} {count start : Nat} {value : α}
    (first : Inv start value)
    (each : ∀ i value, start ≤ i → i < start + count → Inv i value →
      Runs leases terms (step i value) memory (fun last next => Inv (i + 1) last ∧ next = memory) failed) :
    Runs leases terms (PagedIndex.foldUp step count start value) memory
      (fun last next => Inv (start + count) last ∧ next = memory) failed := by
  induction count generalizing start value with
  | zero => exact Runs.pure ⟨first, rfl⟩
  | succ count ih =>
    refine Runs.bind (each start value (Nat.le_refl _) (by omega) first) fun next later known => ?_
    obtain ⟨kept, rfl⟩ := known
    rw [show start + (count + 1) = start + 1 + count by omega]
    exact ih kept fun i value above small => each i value (by omega) (by omega)

/-! ### Bytes -/

theorem Models.seat (models : Models leases ease memory pool) (pinned : page ∈ memory.pins) :
    ∃ id frame history, pool.Seat page id frame history ∧ 0 < frame.pins ∧ frame.page = memory.content page := by
  have some_pin : 0 < leased leases page + memory.pins.count page :=
    Nat.add_pos_right _ (Multiset.count_pos.mpr pinned)
  obtain ⟨id, frame, history, seat, pins⟩ := models.sound.seat page some_pin
  exact ⟨id, frame, history, seat, by rwa [pins], by rw [← (models.sure page (.inr (.inl pinned))).2, seat.visible]⟩

omit [BackingStore σ] [PageKeeper σ] in
theorem residence_ok {id : FrameId} (resident : pool.residents[page]? = some id) :
    residence page pool = .ok id pool := by
  rw [residence, get_bind, resident]
  rfl

theorem Models.view_eq (models : Models leases ease memory pool) (pinned : page ∈ memory.pins)
    (look : Page → Outcome α) :
    Pool.view page look pool = (liftM (look (memory.content page)) : Action σ α) pool := by
  obtain ⟨id, frame, history, seat, _, shows⟩ := models.seat pinned
  rw [Pool.view, bind_ok (residence_ok seat.resident), bind_ok (frame_ok seat.frame_at), shows]

theorem Gives.view {look : Page → Outcome α} (found : α) (pinned : page ∈ memory.pins)
    (looks : look (memory.content page) = .ok found) :
    Gives leases (Pool.view page look : Action σ α) memory found memory := fun _ pool models =>
  ⟨pool, (models.view_eq pinned look).trans (lift_ok looks), .plain (.view page look), models, .refl pool⟩

theorem Runs.view {look : Page → Outcome α} (found : α) (pinned : page ∈ memory.pins)
    (looks : look (memory.content page) = .ok found) :
    Runs leases terms (Pool.view page look : Action σ α) memory (fun value next => value = found ∧ next = memory)
      failed :=
  (Gives.view found pinned looks).runs (.refl memory)

theorem Runs.survey {look : Page → Outcome α} {refusal : Error → Prop} {holds : α → Prop}
    (pinned : page ∈ memory.pins) (settles : Settles refusal holds (look (memory.content page)))
    (refused : failed memory) (hindered : ∀ error, refusal error → ¬ terms.ease) :
    Runs leases terms (Pool.view page look : Action σ α) memory (fun value next => holds value ∧ next = memory)
      failed := by
  refine .plain (.view page look) fun pool models => ?_
  rw [models.view_eq pinned]
  generalize look (memory.content page) = outcome at settles
  cases settles with
  | ok right => exact .ok models ⟨.refl memory, right, rfl⟩
  | error reason => exact .error models ⟨.refl memory, refused⟩ (hindered _ reason)

theorem Models.write (models : Models leases ease memory pool) (pinned : page ∈ memory.pins) {id : FrameId}
    {frame : Frame} {history : AccessHistory} (seat : pool.Seat page id frame history) (bytes : Page) :
    Models leases ease (memory.write page bytes) (pool.place id { frame with page := bytes, dirty := true }) := by
  have reframed : Reframed pool page id { frame with page := bytes, dirty := true } _ := reframed_place _
  have counted := models.sound.pins page
  have mine := Multiset.count_pos.mpr pinned
  rw [seat.pinsOf] at counted
  have some_pin : 0 < frame.pins := by
    rw [counted]
    exact Nat.add_pos_right _ mine
  obtain ⟨rewritten, firm⟩ := models.sound.coherent.rewritten seat bytes true (fun _ _ => Iff.rfl) (.inl rfl) some_pin
  refine ⟨⟨rewritten, fun other => ?_, models.sound.placed⟩, fun other sure => ?_, models.next,
    fun holds => (models.eased holds).place _ _⟩
  · rw [reframed.pinsOf models.sound.coherent.kept seat]
    split
    · rename_i same
      rw [← same]
      exact counted
    · exact models.sound.pins other
  · rw [reframed.visible models.sound.coherent.kept seat rfl, memory.content_write]
    by_cases same : page = other
    · rw [if_pos same, if_pos same.symm, ← same]
      exact ⟨firm, rfl⟩
    · have before : memory.Sure other := by
        refine sure.imp_right (.imp_right fun written => ?_)
        rwa [memory.content_write, if_neg (Ne.symm same)] at written
      obtain ⟨still, seen⟩ := models.sure other before
      rw [if_neg same, if_neg (Ne.symm same)]
      exact ⟨((reframed.confined models.sound.coherent.kept seat).firm same (fun owes => owes) still).1, seen⟩

theorem Gives.touch (pinned : page ∈ memory.pins) :
    Gives leases (Pool.touch page : Action σ Unit) memory () memory := by
  intro ease pool models
  obtain ⟨id, frame, history, seat, _, shows⟩ := models.seat pinned
  have done : Pool.touch page pool = .ok () (pool.place id { frame with dirty := true }) := by
    rw [Pool.touch, bind_ok (residence_ok seat.resident), setDirty_ok seat.frame_at]
  have written := models.write pinned seat frame.page
  rw [memory.write_self shows] at written
  exact ⟨_, done, .plain (.touch page), written, .place ..⟩

omit [BackingStore σ] [PageKeeper σ] in
theorem edit_ok {id : FrameId} {frame : Frame} {history : AccessHistory} (seat : pool.Seat page id frame history)
    {change : Page → Outcome (α × Page)} {answer : α} {bytes : Page}
    (changes : change frame.page = .ok (answer, bytes)) :
    edit page change pool = .ok answer (pool.place id { frame with page := bytes, dirty := true }) := by
  have small := (Array.getElem?_eq_some_iff.mp seat.frame_at).1
  let marked := pool.place id { frame with dirty := true }
  have touched : touch page pool = .ok () marked := by
    rw [touch, bind_ok (residence_ok seat.resident), setDirty_ok seat.frame_at]
  have resides : residence page marked = .ok id marked := residence_ok seat.resident
  have marked_at : marked.frames[id.index]? = some { frame with dirty := true } :=
    Array.getElem?_setIfInBounds_self_of_lt small
  rw [edit, bind_ok touched, bind_ok resides, bind_ok (frame_ok marked_at), bind_ok (lift_ok changes)]
  dsimp only
  rw [bind_ok setFrame_ok, pure_apply]
  simp only [marked, place, Array.setIfInBounds_setIfInBounds]

theorem Gives.edit {change : Page → Outcome (α × Page)} (found : α) (bytes : Page) (pinned : page ∈ memory.pins)
    (changes : change (memory.content page) = .ok (found, bytes)) :
    Gives leases (Pool.edit page change : Action σ α) memory found (memory.write page bytes) := by
  intro ease pool models
  obtain ⟨id, frame, history, seat, _, shows⟩ := models.seat pinned
  rw [← shows] at changes
  exact ⟨_, edit_ok seat changes, .plain (.edit page change), models.write pinned seat bytes, .place ..⟩

theorem Gives.amend {change : Page → Outcome Page} (bytes : Page) (pinned : page ∈ memory.pins)
    (changes : change (memory.content page) = .ok bytes) :
    Gives leases (Pool.amend page change : Action σ Unit) memory () (memory.write page bytes) :=
  Gives.edit () bytes pinned (bind_of_ok _ changes)

theorem Runs.edit {change : Page → Outcome (α × Page)} (found : α) (bytes : Page)
    (pinned : page ∈ memory.pins) (changes : change (memory.content page) = .ok (found, bytes)) :
    Runs leases terms (Pool.edit page change : Action σ α) memory
      (fun value next => value = found ∧ next = memory.write page bytes) failed :=
  (Gives.edit found bytes pinned changes).runs (.of_same rfl rfl)

theorem Runs.amend {change : Page → Outcome Page} (bytes : Page) (pinned : page ∈ memory.pins)
    (changes : change (memory.content page) = .ok bytes) :
    Runs leases terms (Pool.amend page change : Action σ Unit) memory
      (fun value next => value = () ∧ next = memory.write page bytes) failed :=
  (Gives.amend bytes pinned changes).runs (.of_same rfl rfl)

theorem Models.pages (models : Models leases ease memory pool) : memory.toPages.Shown pool.pages :=
  ⟨models.next, fun page written => (models.sure page (.inr (.inr written))).2⟩

omit [BackingStore σ] [PageKeeper σ] in
theorem Deleted.unwilling (deleted : Deleted pool page (.ok false later)) : 0 < pool.pinsOf page := by
  cases deleted with
  | pinned seat pinned => rwa [seat.pinsOf]

/-- A page that is deleted shows what it shows then, and is not counted on any more unless it holds something. -/
theorem Models.delete (models : Models leases ease memory pool) (unpinned : page ∉ memory.pins) {gone : Bool}
    (deleted : Deleted pool page (.ok gone later)) :
    Models leases ease (memory.drop page gone (later.visible page) pool.pages) later := by
  have ends : Coherent (owedBy leases) [] later ∧ (∀ other, later.pinsOf other = pool.pinsOf other) ∧
      Stays pool later ∧ later.next = pool.next ∧ ∀ other, page ≠ other → Firm (owedBy leases) pool other →
        Firm (owedBy leases) later other ∧ later.visible other = pool.visible other := by
    cases gone with
    | false =>
      obtain ⟨quiet, next⟩ := deleted.quiet models.sound.coherent
      exact ⟨quiet.coherent, quiet.pins, quiet.stays, next, fun other _ => quiet.lasting other⟩
    | true =>
      have reverts := deleted.reverts models.sound.coherent
      exact ⟨reverts.coherent, reverts.pins, reverts.stays, reverts.next, fun other differ firm =>
        ⟨reverts.firm other differ firm, (reverts.visible other).trans (if_neg differ)⟩⟩
  obtain ⟨coherent, pins, stays, next, others⟩ := ends
  have content : ∀ other, (memory.drop page gone (later.visible page) pool.pages).content other =
      if other = page then later.visible page else memory.content other := fun other =>
    memory.toPages.content_write page other _
  refine ⟨⟨coherent, fun other => ?_, models.sound.placed_later stays⟩, fun other sure => ?_, next.trans models.next,
    fun holds => (models.eased holds).deleted deleted⟩
  · rw [pins]
    exact models.sound.pins other
  · rw [Memory.Sure, content] at sure
    rw [content]
    by_cases same : page = other
    · subst same
      rw [if_pos rfl] at sure ⊢
      refine ⟨coherent.firm ?_, rfl⟩
      rcases sure with ⟨_, stays⟩ | pinned | written
      · exact absurd (by simp [Memory.drop, Annals.drop, droppedIn, Mark.dropped?]) stays
      · exact absurd pinned unpinned
      · exact written
    · rw [if_neg (Ne.symm same)] at sure ⊢
      have before : memory.Sure other := by
        refine sure.imp_left (.imp_right fun stays member => stays ?_)
        rw [show (memory.drop page gone (later.visible page) pool.pages).marks = memory.marks ++ _ from rfl,
          droppedIn_append]
        exact List.mem_append_left _ member
      obtain ⟨firm, seen⟩ := models.sure other before
      obtain ⟨still, shown⟩ := others other same firm
      exact ⟨still, shown.trans seen⟩

/-- A page that the operation has not pinned itself is deleted if no client has pinned it. -/
theorem Runs.delete (unpinned : page ∉ memory.pins) :
    Runs leases terms (Pool.delete page : Action σ Bool) memory
      (fun gone next => ∃ bytes seen, memory.toPages.Shown seen ∧ next = memory.drop page gone bytes seen) failed := by
  intro pool models
  have deleted := models.sound.coherent.kept.delete page
  generalize run : Pool.delete page pool = result at deleted
  match result, deleted with
  | .ok gone later, deleted =>
    refine ⟨_, .delete_ok run, fun other seen member => ?_, ?_⟩
    · obtain ⟨rfl, rfl, -⟩ : other = page ∧ false = gone ∧ seen = pool.pages := by simpa using member
      have counted := models.sound.pins other
      rw [Multiset.count_eq_zero.mpr unpinned, Nat.add_zero] at counted
      rw [← counted]
      exact deleted.unwilling
    · exact .ok (models.delete unpinned deleted) ⟨⟨rfl, rfl⟩, _, _, models.pages, rfl⟩
  | .error failure later, deleted => cases deleted

end Pool

end PagedIndex
