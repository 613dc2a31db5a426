import Mathlib
import PagedIndex.Proofs.Table.Calls
import PagedIndex.Proofs.Table.Reached

/-!
# Tables side by side

Any number of tables may be made over one pool, and any number of handles opened for each. Whatever is done with
them, and with other pages, each table is one list of entries for all its handles, and nothing that is done with one
is seen by another: the pages that a table takes are new, and those that it gives up are nobody's ever after.
-/

namespace PagedIndex.Table

open Function (update)
open Pool (Answers Leaves)

variable {ι : Type} [DecidableEq ι] {K V : ι → Type} {σ : Type} [∀ i, FixedWidth (K i)] [∀ i, FixedWidth (V i)]
  [BackingStore σ] [PageKeeper σ]

/-- A session with tables, each with the handles that were opened for it and the deeds that were done through
them. A table that was not made yet has no handle. -/
structure Tenants (K V : ι → Type) (σ : Type) where
  session : Session σ
  handles : (i : ι) → List (Table (K i) (V i)) := fun _ => []
  deeds : (i : ι) → List (Deed (K i) (V i)) := fun _ => []

namespace Tenants

variable (tenants : Tenants K V σ)

omit [DecidableEq ι] [∀ i, FixedWidth (K i)] [∀ i, FixedWidth (V i)] in
/-- A page that is the header, a directory or a bucket of a table. -/
def Owned (i : ι) (page : PageId) : Prop := ∃ handle ∈ tenants.handles i, Owns handle tenants.session.pages page

def made (i : ι) (answer : Except Error (Table (K i) (V i))) (pool : Pool σ) : Tenants K V σ where
  session := { tenants.session with pool }
  handles := update tenants.handles i (match answer with | .ok table => [table] | .error _ => [])
  deeds := tenants.deeds

def called (i : ι) (asked : Call (K i) (V i)) (answer : Except Error asked.Reply) (pool : Pool σ) : Tenants K V σ where
  session := { tenants.session with pool }
  handles := update tenants.handles i (tenants.handles i ++ asked.handles answer)
  deeds := update tenants.deeds i (tenants.deeds i ++ asked.deeds answer)

/-- What can happen: a table is made, a table is called through any of its handles, or a client makes a move that
leaves the pages of all tables alone. -/
inductive Step (tenants : Tenants K V σ) : Tenants K V σ → Prop where
  | made (i : ι) (vacant : tenants.handles i = []) (name : String) (compare : K i → K i → Ordering)
      (hash : K i → UInt32) (options : Options) {answer : Except Error (Table (K i) (V i))} {pool : Pool σ}
      (done : Answers (Table.create name compare hash options) tenants.session.pool answer pool) :
      Step tenants (tenants.made i answer pool)
  | called (i : ι) {handle : Table (K i) (V i)} (member : handle ∈ tenants.handles i) (asked : Call (K i) (V i))
      {answer : Except Error asked.Reply} {pool : Pool σ}
      (done : Answers (handle.call asked) tenants.session.pool answer pool) :
      Step tenants (tenants.called i asked answer pool)
  | outside {event : Event} {session : Session σ} (step : tenants.session.Step event session)
      (spares : ∀ i, event.Spares (tenants.Owned i)) : Step tenants { tenants with session }

/-- From a session without tables on, anything may happen any number of times. -/
inductive Run : Tenants K V σ → Prop where
  | begun {store : σ} {events : List Event} {session : Session σ} (run : Session.Run store events session) :
      Run { session }
  | stepped {tenants later : Tenants K V σ} (before : Run tenants) (step : tenants.Step later) : Run later

/-! ### The invariant -/

/-- A table is one list for all its handles, which its deeds have made. -/
structure Resident (i : ι) (table : Table (K i) (V i)) (list : List (K i × V i)) : Prop where
  shares : ∀ handle ∈ tenants.handles i, Shares table handle
  alive : Alive table tenants.session list
  right : Agrees table.compare table.hash → (∀ deed ∈ tenants.deeds i, ¬ deed.Broke) →
    Deed.AllRight table.compare [] (tenants.deeds i) ∧
      list = (tenants.deeds i).foldl (Deed.after table.compare) []

/-- Every table that was made is there, and no page is that of two, or that of a client. -/
structure Orderly : Prop where
  kept : tenants.session.Kept
  absent : ∀ i, tenants.handles i = [] → tenants.deeds i = []
  resident : ∀ i, tenants.handles i ≠ [] → ∃ table list, tenants.Resident i table list
  apart : ∀ i j, i ≠ j → ∀ page, tenants.Owned i page → ¬ tenants.Owned j page
  foreign : ∀ i page, tenants.Owned i page → tenants.session.origin ≤ page.number ∧ page ∉ tenants.session.issued

variable {tenants} {later : Tenants K V σ} {i j : ι} {table : Table (K i) (V i)} {list : List (K i × V i)}
  {page : PageId}

omit [DecidableEq ι] in
theorem Resident.owned_iff (resident : tenants.Resident i table list) (some_handle : tenants.handles i ≠ []) :
    tenants.Owned i page ↔ Owns table tenants.session.pages page := by
  constructor
  · rintro ⟨handle, member, owns⟩
    rwa [← (resident.shares handle member).owns]
  · intro owns
    obtain ⟨handle, member⟩ := List.exists_mem_of_ne_nil _ some_handle
    exact ⟨handle, member, by rwa [(resident.shares handle member).owns]⟩

omit [DecidableEq ι] in
theorem Orderly.owned (orderly : tenants.Orderly) (owned : tenants.Owned i page) :
    page.number < tenants.session.pool.next ∧ tenants.session.Firm page := by
  have some_handle : tenants.handles i ≠ [] := by
    obtain ⟨handle, member, _⟩ := owned
    exact List.ne_nil_of_mem member
  obtain ⟨table, list, resident⟩ := orderly.resident i some_handle
  have stores := resident.alive.stores
  have owns := (resident.owned_iff some_handle).mp owned
  exact ⟨stores.owned_issued owns, orderly.kept.sound.coherent.firm (stores.written owns)⟩

/-- A table whose pages are seen as before is as it was. -/
structure Unmoved (tenants : Tenants K V σ) (j : ι) (later : Tenants K V σ) : Prop where
  handles : later.handles j = tenants.handles j
  deeds : later.deeds j = tenants.deeds j
  same : ∀ page, tenants.Owned j page → later.session.pages.content page = tenants.session.pages.content page

omit [DecidableEq ι] [∀ i, FixedWidth (K i)] [∀ i, FixedWidth (V i)] in
theorem Unmoved.owned_iff (unmoved : Unmoved tenants j later) (page : PageId) :
    later.Owned j page ↔ tenants.Owned j page := by
  rw [Owned, Owned, unmoved.handles]
  refine exists_congr fun handle => and_congr_right fun member => owns_congr (fun page owns => ?_) page
  exact unmoved.same page ⟨handle, member, owns⟩

omit [DecidableEq ι] in
theorem Unmoved.resident (unmoved : Unmoved tenants i later) (kept : later.session.Kept)
    (more : tenants.session.pages.next ≤ later.session.pages.next) (some_handle : tenants.handles i ≠ [])
    (resident : tenants.Resident i table list) : later.Resident i table list where
  shares := unmoved.handles ▸ resident.shares
  alive := ⟨kept, resident.alive.stores.congr
    (fun page owns => unmoved.same page ((resident.owned_iff some_handle).mpr owns)) more⟩
  right := unmoved.deeds ▸ resident.right

/-- What becomes of the tenants in a step. -/
structure Passes (tenants later : Tenants K V σ) : Prop where
  orderly : later.Orderly
  next : tenants.session.pool.next ≤ later.session.pool.next
  claims : ∀ j page, later.Owned j page → tenants.Owned j page ∨ tenants.session.pool.next ≤ page.number

omit [DecidableEq ι] in
/-- If all tables but one are as they were, it is enough to know what becomes of that one. -/
theorem Orderly.passes (orderly : tenants.Orderly) (kept : later.session.Kept)
    (more : tenants.session.pool.next ≤ later.session.pool.next)
    (clients : later.session.origin = tenants.session.origin ∧ later.session.issued = tenants.session.issued)
    (unmoved : ∀ j, i ≠ j → Unmoved tenants j later) (absent : later.handles i = [] → later.deeds i = [])
    (resident : later.handles i ≠ [] → ∃ table list, later.Resident i table list)
    (claims : ∀ page, later.Owned i page → tenants.Owned i page ∨ tenants.session.pool.next ≤ page.number) :
    Passes tenants later := by
  have all_claims : ∀ j page, later.Owned j page →
      tenants.Owned j page ∨ tenants.session.pool.next ≤ page.number := by
    intro j page owned
    by_cases here : i = j
    · subst here
      exact claims page owned
    · exact .inl (((unmoved j here).owned_iff page).mp owned)
  -- A page that is new to one table is none that another had before.
  have apart : ∀ j k, i ≠ k → j ≠ k → ∀ page, later.Owned j page → ¬ later.Owned k page := by
    intro j k there differ page owned other
    rw [(unmoved k there).owned_iff] at other
    rcases all_claims j page owned with old | young
    · exact orderly.apart j k differ page old other
    · exact UInt32.not_lt.mpr young (orderly.owned other).1
  refine ⟨⟨kept, fun j none => ?_, fun j some_handle => ?_, fun j k differ page owned other => ?_,
    fun j page owned => ?_⟩, more, all_claims⟩
  · by_cases here : i = j
    · subst here
      exact absent none
    · rw [(unmoved j here).deeds]
      exact orderly.absent j ((unmoved j here).handles ▸ none)
  · by_cases here : i = j
    · subst here
      exact resident some_handle
    · rw [(unmoved j here).handles] at some_handle
      obtain ⟨table, list, resident⟩ := orderly.resident j some_handle
      exact ⟨table, list, (unmoved j here).resident kept more some_handle resident⟩
  · by_cases here : i = k
    · subst here
      exact apart i j (Ne.symm differ) (Ne.symm differ) page other owned
    · exact apart j k here differ page owned other
  · rw [clients.1, clients.2]
    rcases all_claims j page owned with old | young
    · exact orderly.foreign j page old
    · exact ⟨UInt32.le_trans orderly.kept.origin young, fun issued =>
        UInt32.not_lt.mpr young (orderly.kept.issued page issued)⟩

/-! ### Steps -/

/-- What is done to one table changes no firm page that was there and is not this table's. -/
def Leaving (tenants : Tenants K V σ) (i : ι) (pool : Pool σ) : Prop :=
  tenants.session.Spares (tenants.Owned i) { tenants.session with pool }

omit [DecidableEq ι] in
theorem Orderly.unmoved {pool : Pool σ} (orderly : tenants.Orderly) (leaving : Leaving tenants i pool)
    (shown : later.session.pool = pool) (differ : i ≠ j) (handles : later.handles j = tenants.handles j)
    (deeds : later.deeds j = tenants.deeds j) : Unmoved tenants j later where
  handles := handles
  deeds := deeds
  same page owned := by
    subst shown
    obtain ⟨old, firm⟩ := orderly.owned owned
    exact (leaving page old (orderly.apart j i (Ne.symm differ) page owned) firm).2

omit [∀ i, FixedWidth (K i)] [∀ i, FixedWidth (V i)] in
theorem made_spares {K V : Type} [FixedWidth K] [FixedWidth V] {session : Session σ} (kept : session.Kept)
    {name : String} {compare : K → K → Ordering} {hash : K → UInt32} {options : Options}
    {answer : Except Error (Table K V)} {pool : Pool σ}
    (done : Answers (Table.create name compare hash options) session.pool answer pool) :
    session.Spares (fun _ => False) { session with pool } := by
  obtain ⟨-, made⟩ := creating kept done
  cases answer with
  | ok table =>
    obtain ⟨-, -, -, founded⟩ := made
    exact founded.spares
  | error error => exact fun page _ _ firm => made.1 page firm

theorem Orderly.made (orderly : tenants.Orderly) (vacant : tenants.handles i = []) {name : String}
    {compare : K i → K i → Ordering} {hash : K i → UInt32} {options : Options}
    {answer : Except Error (Table (K i) (V i))} {pool : Pool σ}
    (done : Answers (Table.create name compare hash options) tenants.session.pool answer pool) :
    Passes tenants (tenants.made i answer pool) := by
  obtain ⟨kept, made⟩ := creating orderly.kept done
  have leaving : Leaving tenants i pool := fun page old _ => made_spares orderly.kept done page old id
  have unmoved : ∀ j, i ≠ j → Unmoved tenants j (tenants.made i answer pool) := fun j differ =>
    orderly.unmoved leaving rfl differ (Function.update_of_ne (Ne.symm differ) _ _) rfl
  cases answer with
  | ok table =>
    obtain ⟨rfl, rfl, rfl, founded⟩ := made
    have header : table.header = ⟨tenants.session.pool.next⟩ := congrArg Table.header founded.named
    have only : (tenants.made i (.ok table) pool).handles i = [table] := Function.update_self ..
    refine orderly.passes kept (UInt32.le_of_lt founded.less) ⟨rfl, rfl⟩ unmoved (fun none => ?_)
      (fun _ => ⟨table, [], fun handle member => ?_, founded.alive, fun _ _ => ?_⟩) fun page owned => ?_
    · rw [only] at none
      cases none
    · rw [only, List.mem_singleton] at member
      subst member
      exact .refl founded.alive.stores.configured
    · rw [show (tenants.made i (.ok table) pool).deeds i = [] from orderly.absent i vacant]
      exact ⟨trivial, rfl⟩
    · obtain ⟨handle, member, owns⟩ := owned
      rw [only, List.mem_singleton] at member
      subst member
      have here : page = handle.header := founded.bare.owns_iff.mp owns
      rw [here, header]
      exact .inr (UInt32.le_refl _)
  | error error =>
    obtain ⟨-, next⟩ : _ ∧ pool.next = tenants.session.pool.next := made
    have none : (tenants.made i (.error error) pool).handles i = [] := Function.update_self ..
    refine orderly.passes kept (UInt32.le_of_eq next.symm) ⟨rfl, rfl⟩ unmoved
      (fun _ => orderly.absent i vacant) (fun some_handle => absurd none some_handle) fun page owned => ?_
    obtain ⟨handle, member, _⟩ := owned
    rw [none] at member
    cases member

omit [DecidableEq ι] in
theorem Orderly.outside {event : Event} {session : Session σ} (orderly : tenants.Orderly)
    (step : tenants.session.Step event session) (spares : ∀ i, event.Spares (tenants.Owned i)) :
    Passes tenants { tenants with session } := by
  have moved := orderly.kept.moved step
  obtain ⟨origin, makes⟩ := orderly.kept.makes step
  have unmoved : ∀ i, Unmoved tenants i { tenants with session } := fun i =>
    ⟨rfl, rfl, fun page owned => (orderly.kept.spared step (spares i) page owned (orderly.owned owned).2).2⟩
  have owned_iff := fun i => (unmoved i).owned_iff
  refine ⟨⟨moved.kept, orderly.absent, fun i some_handle => ?_, fun i j differ page owned other => ?_,
    fun i page owned => ?_⟩, moved.next_le, fun i page owned => .inl ((owned_iff i page).mp owned)⟩
  · obtain ⟨table, list, resident⟩ := orderly.resident i some_handle
    exact ⟨table, list, (unmoved i).resident moved.kept moved.next_le some_handle resident⟩
  · rw [owned_iff] at owned other
    exact orderly.apart i j differ page owned other
  · rw [owned_iff] at owned
    obtain ⟨before, apart⟩ := orderly.foreign i page owned
    refine ⟨UInt32.le_trans (UInt32.le_of_eq origin) before, fun issued => ?_⟩
    rcases makes page issued with issued | young
    · exact apart issued
    · exact UInt32.not_lt.mpr young (orderly.owned owned).1

/-- What a call through one handle has done, it has done for all handles of the table. -/
theorem Resident.called (resident : tenants.Resident i table list) {handle : Table (K i) (V i)}
    (member : handle ∈ tenants.handles i) {asked : Call (K i) (V i)} {answer : Except Error asked.Reply} {pool : Pool σ}
    {after : List (K i × V i)} (called : Called handle asked list tenants.session answer pool after) :
    (tenants.called i asked answer pool).Resident i table after := by
  have shares := resident.shares handle member
  have handles : (tenants.called i asked answer pool).handles i = tenants.handles i ++ asked.handles answer :=
    Function.update_self ..
  have deeds : (tenants.called i asked answer pool).deeds i = tenants.deeds i ++ asked.deeds answer :=
    Function.update_self ..
  refine ⟨fun other there => ?_, called.alive.shared (shares.symm resident.alive.stores.configured),
    fun agrees whole => ?_⟩
  · rw [handles, List.mem_append] at there
    rcases there with old | opened
    · exact resident.shares other old
    · exact shares.trans (called.shares other opened)
  · rw [deeds] at whole ⊢
    obtain ⟨right, rfl⟩ := resident.right agrees fun deed there => whole deed (List.mem_append_left _ there)
    have answered := called.right
    have made := called.made
    rw [shares.compare, shares.hash] at answered made
    rw [List.foldl_append]
    exact ⟨right.append (answered agrees), made agrees fun deed there => whole deed (List.mem_append_right _ there)⟩

variable [∀ i, RoundTrips (K i)] [∀ i, RoundTrips (V i)]

theorem Orderly.called (orderly : tenants.Orderly) {handle : Table (K i) (V i)} (member : handle ∈ tenants.handles i)
    {asked : Call (K i) (V i)} {answer : Except Error asked.Reply} {pool : Pool σ}
    (done : Answers (handle.call asked) tenants.session.pool answer pool) :
    Passes tenants (tenants.called i asked answer pool) ∧ Leaving tenants i pool ∧
      ∃ marks, Leaves (handle.call asked) tenants.session.pool marks ∧ ∀ page ∈ droppedIn marks,
        page.number < pool.next ∧ ∀ j, ¬ (tenants.called i asked answer pool).Owned j page := by
  have some_handle : tenants.handles i ≠ [] := List.ne_nil_of_mem member
  obtain ⟨table, list, resident⟩ := orderly.resident i some_handle
  have shares := resident.shares handle member
  obtain ⟨list, called⟩ := (resident.alive.shared shares).called done
  have owned_iff : ∀ page, tenants.Owned i page ↔ Owns table tenants.session.pages page := fun _ =>
    resident.owned_iff some_handle
  have heeds := called.heeds
  have spares := called.spares
  rw [shares.owns] at heeds spares
  have leaving : Leaving tenants i pool := fun page old apart =>
    spares page old fun owns => apart ((owned_iff page).mpr owns)
  have more_handles : (tenants.called i asked answer pool).handles i ≠ [] := by
    rw [show (tenants.called i asked answer pool).handles i = _ from Function.update_self ..]
    exact List.append_ne_nil_of_left_ne_nil some_handle _
  have later := resident.called member called
  have owned_later : ∀ page, (tenants.called i asked answer pool).Owned i page ↔
      Owns table (Session.pages { tenants.session with pool }) page := fun _ => later.owned_iff more_handles
  have unmoved : ∀ j, i ≠ j → Unmoved tenants j (tenants.called i asked answer pool) := fun j differ =>
    orderly.unmoved leaving rfl differ (Function.update_of_ne (Ne.symm differ) _ _)
      (Function.update_of_ne (Ne.symm differ) _ _)
  obtain ⟨marks, left, -, booked⟩ := called.recorded
  rw [shares.owns] at booked
  refine ⟨orderly.passes later.alive.kept heeds.next ⟨rfl, rfl⟩ unmoved (fun none => absurd none more_handles)
    (fun _ => ⟨table, list, later⟩) fun page owned => ?_, leaving, marks, left, fun page dropped => ?_⟩
  · rw [owned_later] at owned
    rw [owned_iff]
    exact heeds.reach page owned
  · refine ⟨booked.issued page dropped, fun j owned => ?_⟩
    by_cases here : i = j
    · subst here
      exact booked.apart page dropped ((owned_later page).mp owned)
    · -- What was dropped was this table's or is new, and another table has only what it had.
      rw [(unmoved j here).owned_iff] at owned
      rcases (booked.kept_iff page).mpr (.inr dropped) with mine | made
      · exact orderly.apart i j here page ((owned_iff page).mpr mine) owned
      · exact UInt32.not_lt.mpr (booked.young page made).1 (orderly.owned owned).1

theorem Orderly.stepped (orderly : tenants.Orderly) (step : tenants.Step later) : Passes tenants later := by
  cases step with
  | made i vacant name compare hash options done => exact orderly.made vacant done
  | called i member asked done => exact (orderly.called member done).1
  | outside step spares => exact orderly.outside step spares

/-! ### Runs -/

theorem Run.orderly (run : Run tenants) : tenants.Orderly := by
  induction run with
  | begun run =>
    exact ⟨run.kept, fun _ _ => rfl, fun i some_handle => absurd rfl some_handle,
      fun _ _ _ _ ⟨_, member, _⟩ => (nomatch member), fun _ _ ⟨_, member, _⟩ => (nomatch member)⟩
  | stepped before step ih => exact (ih.stepped step).orderly

theorem Orderly.never (orderly : tenants.Orderly) (steps : Relation.ReflTransGen Step tenants later)
    (old : page.number < tenants.session.pool.next) (apart : ∀ i, ¬ tenants.Owned i page) :
    ∀ i, ¬ later.Owned i page := by
  -- Induction on the steps: numbers of pages only grow, and nothing is claimed but what was owned or is new.
  have all : later.Orderly ∧ page.number < later.session.pool.next ∧ ∀ i, ¬ later.Owned i page := by
    induction steps with
    | refl => exact ⟨orderly, old, apart⟩
    | tail _ step ih =>
      obtain ⟨orderly, old, apart⟩ := ih
      obtain ⟨still, next, claims⟩ := orderly.stepped step
      refine ⟨still, UInt32.lt_of_lt_of_le old next, fun i owned => ?_⟩
      rcases claims i page owned with owned | young
      · exact apart i owned
      · exact UInt32.not_lt.mpr young old
  exact all.2.2

/-- Nothing that happens to one table is seen by another, or by a client. -/
structure Isolated (tenants : Tenants K V σ) : Prop where
  /-- Every handle finds the one list that the calls through all handles of its table have made. -/
  lists : ∀ i, ∀ handle ∈ tenants.handles i, Agrees handle.compare handle.hash →
    (∀ deed ∈ tenants.deeds i, ¬ deed.Broke) → Deed.AllRight handle.compare [] (tenants.deeds i) ∧
      Stores handle tenants.session.pages ((tenants.deeds i).foldl (Deed.after handle.compare) [])
  apart : ∀ i j, i ≠ j → ∀ page, tenants.Owned i page → ¬ tenants.Owned j page
  /-- No table has a page that a client made, or that was in the store from the start. -/
  foreign : ∀ i page, tenants.Owned i page → tenants.session.origin ≤ page.number ∧ page ∉ tenants.session.issued
  /-- The pages of all tables are firm, so are those of clients that show anything, and in memory all others. -/
  firm : ∀ page, (∃ i, tenants.Owned i page) ∨ tenants.session.pool.visible page ≠ Page.zero ∨ PageKeeper.Tight σ →
    tenants.session.Firm page
  makes : ∀ i name compare hash options (answer : Except Error (Table (K i) (V i))) pool,
    Answers (Table.create name compare hash options) tenants.session.pool answer pool →
      tenants.session.Spares (fun _ => False) { tenants.session with pool }
  changes : ∀ i, ∀ handle ∈ tenants.handles i, ∀ asked answer pool,
    Answers (handle.call asked) tenants.session.pool answer pool → Leaving tenants i pool
  /-- A page that a call had the pool delete is no table's ever after. -/
  gone : ∀ i, ∀ handle ∈ tenants.handles i, ∀ asked answer pool,
    Answers (handle.call asked) tenants.session.pool answer pool →
      ∃ marks, Leaves (handle.call asked) tenants.session.pool marks ∧ ∀ page ∈ droppedIn marks, ∀ later,
        Relation.ReflTransGen Step (tenants.called i asked answer pool) later → ∀ j, ¬ later.Owned j page
  never : ∀ page, page.number < tenants.session.pool.next → (∀ i, ¬ tenants.Owned i page) →
    ∀ later, Relation.ReflTransGen Step tenants later → ∀ i, ¬ later.Owned i page

theorem Orderly.separate (orderly : tenants.Orderly) : Isolated tenants where
  lists i handle member agrees whole := by
    obtain ⟨table, list, resident⟩ := orderly.resident i (List.ne_nil_of_mem member)
    have shares := resident.shares handle member
    rw [shares.compare, shares.hash] at agrees
    rw [shares.compare]
    obtain ⟨right, rfl⟩ := resident.right agrees whole
    exact ⟨right, (resident.alive.shared shares).stores⟩
  apart := orderly.apart
  foreign := orderly.foreign
  firm page known := by
    have coherent := orderly.kept.sound.coherent
    rcases known with ⟨_, owned⟩ | written | tight
    · exact (orderly.owned owned).2
    · exact coherent.firm written
    · exact coherent.firm_of_tight tight page
  makes i name compare hash options answer pool done := made_spares orderly.kept done
  changes i handle member asked answer pool done := (orderly.called member done).2.1
  gone i handle member asked answer pool done := by
    obtain ⟨passes, -, marks, left, dropped⟩ := orderly.called member done
    refine ⟨marks, left, fun page there later steps => ?_⟩
    obtain ⟨issued, apart⟩ := dropped page there
    exact passes.orderly.never steps issued apart
  never page old apart later steps := orderly.never steps old apart

/-- Tables over one pool, each used through any of its handles, are as many lists that know nothing of each other. -/
theorem Run.isolated (run : Run tenants) : Isolated tenants := run.orderly.separate

end Tenants

/-- Two tables are made, and an entry is put into one. -/
theorem isolated_two_tables : ∃ (tenants : Tenants (fun _ : Bool => UInt32) (fun _ => UInt32) RamStore)
    (one other : Table UInt32 UInt32), one ∈ tenants.handles false ∧ other ∈ tenants.handles true ∧
      tenants.Isolated ∧ Stores one tenants.session.pages [(7, 8)] ∧ Stores other tenants.session.pages [] := by
  obtain ⟨pool, first, one, -, opened, -, done, eased, begins⟩ := exists_founded {} rfl
  have done : Answers (Table.create "t" Ord.compare (fun key => key) {}) pool (.ok one) first := done
  obtain ⟨kept, -, compares_one, hashes_one, -⟩ := creating opened.kept done
  have checked : ({} : Options).check UInt32 UInt32 = .ok () := rfl
  obtain ⟨other, second, again, eased, next⟩ :=
    create_total kept eased (by rw [begins]; decide) checked "u" Ord.compare fun key => key
  have again : Answers (Table.create "u" Ord.compare (fun key => key) {}) first (.ok other) second := again
  obtain ⟨-, -, compares_other, hashes_other, -⟩ := creating kept again
  have agrees : ∀ table : Table UInt32 UInt32, table.compare = Ord.compare → (table.hash = fun key => key) →
      Agrees table.compare table.hash := fun _ compares hashes => by
    rw [compares, hashes]
    exact agrees_self
  let begun : Tenants (fun _ : Bool => UInt32) (fun _ => UInt32) RamStore := { session := { pool, origin := 0 } }
  let both := (begun.made false (.ok one) first).made true (.ok other) second
  have run : both.Run := ((Tenants.Run.begun opened).stepped (.made false rfl _ _ _ _ done)).stepped
    (.made true rfl _ _ _ _ again)
  have member : one ∈ both.handles false := List.mem_cons_self
  obtain ⟨table, list, resident⟩ := run.orderly.resident false (List.ne_nil_of_mem member)
  have shares := resident.shares one member
  obtain ⟨-, rfl⟩ := resident.right (by
    rw [← shares.compare, ← shares.hash]
    exact agrees one compares_one hashes_one) (by simp [both, begun, Tenants.made])
  have room : second.next.toNat + (maxDirectoryDepth + 3) < wordBound := by
    rw [show second.next = first.next + 1 from next, begins]
    decide
  obtain ⟨third, inserted, -⟩ := (resident.alive.shared shares).insert_first eased room 7 8
  let last := both.called false (.insert 7 8) (.ok true) third
  have isolated : last.Isolated := (run.stepped (.called false member (.insert 7 8) inserted)).isolated
  have here : one ∈ last.handles false := List.mem_cons_self
  have there : other ∈ last.handles true := List.mem_cons_self
  have whole : ∀ i, ∀ deed ∈ last.deeds i, ¬ deed.Broke := by
    simp [last, both, begun, Tenants.called, Tenants.made, Call.deeds, Deed.Broke]
  exact ⟨last, one, other, here, there, isolated,
    (isolated.lists false one here (agrees one compares_one hashes_one) (whole false)).2,
    (isolated.lists true other there (agrees other compares_other hashes_other) (whole true)).2⟩

end PagedIndex.Table
