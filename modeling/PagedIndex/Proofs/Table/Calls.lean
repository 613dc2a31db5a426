import Mathlib
import PagedIndex.Proofs.Table.Verifying

/-!
# Calls of a table

All that may be asked of a table, as one: what a call does to the list of entries, which pages it changes, makes
and deletes, and what its caller may rely on afterwards.
-/

namespace PagedIndex.Table

open Pool (Runs Leaves Obliges)

/-- What may be asked of a table that was made. -/
inductive Call (K V : Type) where
  | insert (key : K) (value : V)
  | find (key : K)
  | remove (key : K)
  | verify
  | attach (name : String) (options : Options)

namespace Call

variable {K V : Type}

def Reply : Call K V → Type
  | insert .. => Bool
  | find _ => List V
  | remove _ => Bool
  | verify => Unit
  | attach .. => Table K V

/-- The deed that a call is, with its answer; looking at the pages only is none. -/
def deeds : (asked : Call K V) → Except Error asked.Reply → List (Deed K V)
  | insert key value, answer => [.inserted key value answer]
  | find key, answer => [.found key answer]
  | remove key, answer => [.removed key answer]
  | verify, _ => []
  | attach .., _ => []

/-- The handle that a call opens. -/
def handles : (asked : Call K V) → Except Error asked.Reply → List (Table K V)
  | attach .., .ok handle => [handle]
  | _, _ => []

/-- Whether a call that came to this answer has only looked at the pages. -/
def Looks : (asked : Call K V) → Except Error asked.Reply → Prop
  | insert .., _ => False
  | remove _, answer => answer = .ok false
  | find _, _ => True
  | verify, _ => True
  | attach .., _ => True

end Call

variable {K V σ : Type} [FixedWidth K] [FixedWidth V] [BackingStore σ] [PageKeeper σ] {leases : List Lease}
  {table handle : Table K V} {memory later : Memory} {entries list : List (K × V)} {asked : Call K V}

def call (table : Table K V) : (asked : Call K V) → Pool.Action σ asked.Reply
  | .insert key value => table.insert key value
  | .find key => table.find key
  | .remove key => table.remove key
  | .verify => table.verify
  | .attach name options => attach name table.compare table.hash table.header options

/-- Two handles of one table differ only in its name and in the limits for the pages it takes from now on. -/
structure Shares (table handle : Table K V) : Prop where
  header : handle.header = table.header
  compare : handle.compare = table.compare
  hash : handle.hash = table.hash
  configured : handle.Configured

/-- What a call leaves behind, and what its answer says of the list of entries. -/
structure Obeyed (table : Table K V) (asked : Call K V) (entries : List (K × V)) (memory : Memory)
    (answer : Except Error asked.Reply) (later : Memory) (list : List (K × V)) : Prop where
  serves : Serves table list memory later
  right : Agrees table.compare table.hash → Deed.AllRight table.compare entries (asked.deeds answer)
  made : Agrees table.compare table.hash → (∀ deed ∈ asked.deeds answer, ¬ deed.Broke) →
    list = (asked.deeds answer).foldl (Deed.after table.compare) entries
  still : asked.Looks answer → later = memory
  shares : ∀ handle ∈ asked.handles answer, Shares table handle

theorem Stores.obeyed (stores : Stores table memory.toPages entries) {answer : Except Error asked.Reply}
    (right : Agrees table.compare table.hash → Deed.AllRight table.compare entries (asked.deeds answer))
    (same : (asked.deeds answer).foldl (Deed.after table.compare) entries = entries)
    (shares : ∀ handle ∈ asked.handles answer, Shares table handle) :
    Obeyed table asked entries memory answer memory entries :=
  ⟨stores.serves, right, fun _ _ => same.symm, fun _ => rfl, shares⟩

variable [RoundTrips K] [RoundTrips V]

theorem call_runs (stores : Stores table memory.toPages entries) (free : memory.pins = 0) (asked : Call K V) :
    Runs leases ⟨False, True⟩ (table.call asked : Pool.Action σ asked.Reply) memory
      (fun reply later => ∃ list, Obeyed table asked entries memory (.ok reply) later list)
      (fun later => ∀ error, ∃ list, Obeyed table asked entries memory (.error error) later list) := by
  have same : ∀ later, later = memory → (∀ error,
      (asked.deeds (.error error)).foldl (Deed.after table.compare) entries = entries ∧
      Deed.AllRight table.compare entries (asked.deeds (.error error)) ∧ asked.handles (.error error) = []) →
      ∀ error, ∃ list, Obeyed table asked entries memory (.error error) later list := by
    rintro _ rfl nothing error
    obtain ⟨unchanged, right, none⟩ := nothing error
    exact ⟨_, stores.obeyed (fun _ => right) unchanged (by simp [none])⟩
  cases asked with
  | insert key value =>
    refine (insert_runs stores free .of_nothing).mono (fun inserted later left => ?_) fun later serves error => ?_
    · refine ⟨_, left.serves, fun _ => ⟨trivial, trivial⟩, fun _ _ => ?_, nofun, nofun⟩
      cases inserted <;> rfl
    · exact ⟨_, serves, fun _ => ⟨trivial, trivial⟩, fun _ _ => rfl, nofun, nofun⟩
  | find key =>
    refine (find_runs stores free key).mono (fun values later left => ?_)
      fun later left => same later left fun error => ⟨rfl, ⟨trivial, trivial⟩, rfl⟩
    obtain ⟨found, rfl⟩ := left
    exact ⟨_, stores.obeyed (fun agrees => ⟨found.trans (listing_eq agrees ..), trivial⟩) rfl nofun⟩
  | remove key =>
    refine (remove_runs stores free key).mono (fun removed later left => ?_) fun later left error => ?_
    · obtain ⟨right, still, list, rid, serves, _⟩ := left
      exact ⟨list, serves, fun agrees => ⟨right agrees, trivial⟩, fun agrees _ => rid agrees,
        fun nothing => still (Except.ok.inj nothing), nofun⟩
    · have broke : ¬ ∀ deed ∈ Call.deeds (.remove key : Call K V) (.error error), ¬ deed.Broke := fun whole =>
        whole _ List.mem_cons_self trivial
      rcases left with serves | ⟨list, _, serves⟩
      · exact ⟨_, serves, fun _ => ⟨trivial, trivial⟩, fun _ whole => absurd whole broke, nofun, nofun⟩
      · exact ⟨_, serves, fun _ => ⟨trivial, trivial⟩, fun _ whole => absurd whole broke, nofun, nofun⟩
  | verify =>
    refine (verify_runs stores free).mono (fun _ later left => ?_)
      fun later left => same later left fun error => ⟨rfl, trivial, rfl⟩
    obtain rfl := left
    exact ⟨_, stores.obeyed (fun _ => trivial) rfl nofun⟩
  | attach name options =>
    by_cases checked : options.check K V = .ok ()
    · refine (attach_runs checked stores free).mono (fun opened later left => ?_)
        fun later left => same later left fun error => ⟨rfl, trivial, rfl⟩
      obtain ⟨rfl, rfl, _⟩ := left
      refine ⟨_, stores.obeyed (fun _ => trivial) rfl fun handle member => ?_⟩
      obtain rfl := List.mem_singleton.mp member
      exact ⟨rfl, rfl, rfl, configured_ofHeader checked⟩
    · obtain ⟨error, refused⟩ := check_refuses checked
      have refuses : Runs leases ⟨False, True⟩ (liftM (options.check K V) : Pool.Action σ Unit) memory
          (fun _ _ => False) fun later => later = memory := Runs.refuse refused rfl id
      exact (Runs.bind refuses fun _ _ => False.elim).mono (fun _ _ => False.elim)
        fun later left => same later left fun error => ⟨rfl, trivial, rfl⟩

/-! ### Calls in a session -/

variable {session : Session σ} {pool : Pool σ} {answer : Except Error asked.Reply}

/-- What a call has done to a session, in which its table stored a list. -/
structure Called (table : Table K V) (asked : Call K V) (entries : List (K × V)) (session : Session σ)
    (answer : Except Error asked.Reply) (pool : Pool σ) (list : List (K × V)) : Prop where
  alive : Alive table { session with pool } list
  heeds : Heeds (Owns table) session.pages pool.pages
  spares : session.Spares (Owns table session.pages) { session with pool }
  right : Agrees table.compare table.hash → Deed.AllRight table.compare entries (asked.deeds answer)
  made : Agrees table.compare table.hash → (∀ deed ∈ asked.deeds answer, ¬ deed.Broke) →
    list = (asked.deeds answer).foldl (Deed.after table.compare) entries
  still : asked.Looks answer → session.Lasts { session with pool } ∧ pool.next = session.pool.next
  shares : ∀ handle ∈ asked.handles answer, Shares table handle
  recorded : ∃ marks, Leaves (table.call asked) session.pool marks ∧ Obliges session.leases marks ∧
    Booked (Owns table) session.pages marks pool.pages

omit [RoundTrips K] [RoundTrips V] in
/-- What an operation has done to other pages than the table's own: those that were firm are as they were. -/
theorem Serves.spares {list : List (K × V)} {marks : List Mark} (serves : Serves table list session.memory memory)
    (models : Pool.Models session.leases False memory pool) (follows : session.memory.Follows marks memory) :
    session.Spares (Owns table session.pages) { session with pool } := by
  obtain ⟨minds, more, noted, booked⟩ := serves.upkeep
  obtain rfl : marks = more := List.append_cancel_left (follows.marks.symm.trans noted)
  intro page old apart firm
  have stays : page ∉ droppedIn marks := fun dropped => by
    rcases (booked.kept_iff page).mpr (.inr dropped) with owned | made
    · exact apart owned
    · exact UInt32.not_lt.mpr (booked.young page made).1 old
  obtain ⟨still, seen⟩ := Session.lasts_of_models models follows firm stays
  exact ⟨still, seen.trans (minds.others page old apart)⟩

theorem Alive.called (alive : Alive table session entries)
    (done : Pool.Answers (table.call asked) session.pool answer pool) :
    ∃ list, Called table asked entries session answer pool list := by
  obtain ⟨marks, memory, left, obliges, models, follows, ends⟩ :=
    (call_runs alive.seen rfl asked).recorded (alive.kept.models False.elim) done
  obtain ⟨list, obeyed⟩ : ∃ list, Obeyed table asked entries session.memory answer memory list := by
    cases answer with
    | ok reply => exact ends
    | error error => exact ends error
  obtain ⟨serves, right, made, still, shares⟩ := obeyed
  obtain ⟨minds, more, noted, booked⟩ := serves.upkeep
  obtain rfl : marks = more := List.append_cancel_left (follows.marks.symm.trans noted)
  have owned := serves.stores.owns_shown models.pages
  refine ⟨list, (alive.served models serves).1, minds.shown models.pages fun page => (owned page).mp,
    serves.spares models follows, right, made, fun looks => ?_, shares, marks, left, obliges,
    booked.shown models.pages.next owned⟩
  have same := still looks
  subst same
  exact Session.lasts_still models follows

omit [RoundTrips K] [RoundTrips V] [BackingStore σ] [PageKeeper σ] in
theorem Shares.owns (shares : Shares table handle) : Owns handle = Owns table := by
  funext pages page
  simp only [Owns, branch, breadth, shares.header]

omit [RoundTrips K] [RoundTrips V] in
theorem Alive.shared (alive : Alive table session entries) (shares : Shares table handle) :
    Alive handle session entries :=
  ⟨alive.kept, alive.stores.reconfigured shares.configured shares.header shares.hash⟩

omit [RoundTrips K] [RoundTrips V] [BackingStore σ] [PageKeeper σ] in
theorem Shares.refl (configured : table.Configured) : Shares table table := ⟨rfl, rfl, rfl, configured⟩

omit [RoundTrips K] [RoundTrips V] [BackingStore σ] [PageKeeper σ] in
theorem Shares.symm (shares : Shares table handle) (configured : table.Configured) : Shares handle table :=
  ⟨shares.header.symm, shares.compare.symm, shares.hash.symm, configured⟩

omit [RoundTrips K] [RoundTrips V] [BackingStore σ] [PageKeeper σ] in
theorem Shares.trans {other : Table K V} (first : Shares table handle) (second : Shares handle other) :
    Shares table other :=
  ⟨second.header.trans first.header, second.compare.trans first.compare, second.hash.trans first.hash,
    second.configured⟩

end PagedIndex.Table
