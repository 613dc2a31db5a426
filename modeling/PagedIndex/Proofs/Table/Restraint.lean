import Mathlib
import PagedIndex.Proofs.Pool.Accesses
import PagedIndex.Proofs.Pool.Gentle
import PagedIndex.Proofs.Table.Calls
import PagedIndex.Proofs.Table.Reached

/-!
# What operations leave alone

However an operation ends, each page is pinned afterwards as often as before it; and one that has only looked at the
pages has changed none of them, and marked none.
-/

namespace PagedIndex

open Pool (Gentle Mild Never Answers)

namespace Table

variable {K V σ : Type} [FixedWidth K] [FixedWidth V] [BackingStore σ] {table handle : Table K V}

/-! ### Operations that mark no page -/

omit [FixedWidth K] [FixedWidth V] in
theorem pinDirectory_gentle (table : Table K V) (hash : UInt32) :
    Mild (table.pinDirectory hash : Pool.Action σ PageId) := by
  refine .holding (.bind (.view _ _) fun directory => ?_)
  split
  · exact .bind (.fetch _) fun _ => .pure _
  · exact .pure _

theorem pinBucket_gentle (directory : PageId) (hash : UInt32) :
    Mild (pinBucket directory hash : Pool.Action σ PageId) := by
  refine Gentle.keeping (fun _ _ => trivial) (.bind (.view _ _) fun found => ?_)
  dsimp only
  split
  · exact .bind (.fetch _) fun _ => .pure _
  · exact .pure _

theorem find_gentle (table : Table K V) (key : K) : Mild (table.find key : Pool.Action σ (List V)) := by
  refine .bind (table.pinDirectory_gentle _) fun directory => ?_
  split
  · exact .pure _
  · refine .bind (pinBucket_gentle _ _) fun bucket => ?_
    split
    · exact .pure _
    · exact Gentle.keeping (fun _ _ => trivial) (.view _ _)

theorem attach_gentle (name : String) (compare : K → K → Ordering) (hash : K → UInt32) (header : PageId)
    (options : Options) : Mild (attach name compare hash header options : Pool.Action σ (Table K V)) :=
  .bind (.lift _) fun _ => .bind (.holding (.view _ _)) fun _ => .pure _

theorem verifyDirectory_gentle (table : Table K V) (header : Header pageSize) (slot : Nat) :
    Mild (table.verifyDirectory header slot : Pool.Action σ Unit) := by
  refine .bind (.lift _) fun page => ?_
  split
  · exact .pure _
  · refine .holding (.bind (.view _ _) fun directory => .bind (.lift _) fun _ => .bind (.lift _) fun size =>
      .bind (.foldUp (fun slot seen => ?_) _ _ _) fun _ => .pure _)
    refine .bind (.lift _) fun bucket => ?_
    split
    · exact .pure _
    · exact .bind (.lift _) fun localSize => .bind (.holding (.view _ _)) fun _ => .pure _

theorem verify_gentle (table : Table K V) : Mild (table.verify : Pool.Action σ Unit) :=
  .holding (.bind (.view _ _) fun header => .bind (.lift _) fun _ =>
    .foldUp (fun slot _ => table.verifyDirectory_gentle header slot) _ _ _)

omit [BackingStore σ] in
theorem eraseIn_gentle (table : Table K V) (bucket : PageId) (key : K) :
    Gentle (· = some none) (table.eraseIn bucket key : Pool.Action σ (Option Bool)) := by
  refine .bind (.view _ _) fun found => ?_
  split
  · exact .pure _
  · refine (Never.edit nofun fun bytes value after changes => ?_).gentle
    obtain ⟨bucket, _, changes⟩ := ok_of_bind changes
    obtain ⟨erased, _, changes⟩ := ok_of_bind changes
    obtain ⟨emptied, _, changes⟩ := ok_of_bind changes
    cases changes
    simp

theorem removeIn_gentle (table : Table K V) (directory : PageId) (key : K) :
    Gentle (· = some false) (table.removeIn directory key : Pool.Action σ Bool) := by
  refine .bind (.view _ _) fun found => ?_
  dsimp only
  split
  · exact .pure _
  · refine .bind (.fetch _) fun _ => ((table.eraseIn_gentle _ key).entrusting).bind_counted nofun fun erased => ?_
    cases erased with
    | none => exact .inl ⟨rfl, .bind (.unpin _) fun _ => .pure _⟩
    | some emptied =>
      -- Whatever is done now, the answer is yes.
      have yes : Never (· = some false) (pure true : Pool.Action σ Bool) := .pure (by simp)
      cases emptied with
      | true => exact .inr (.bind nofun fun _ => yes)
      | false => exact .inr (.bind nofun fun _ => yes)

theorem remove_gentle (table : Table K V) (key : K) :
    Gentle (· = some false) (table.remove key : Pool.Action σ Bool) := by
  refine .bind (table.pinDirectory_gentle _) fun directory => ?_
  split
  · exact .pure _
  · exact (table.removeIn_gentle directory key).keeping nofun

variable {asked : Call K V}

/-- A call that has only looked at the pages has marked none. -/
theorem call_gentle (table : Table K V) (asked : Call K V) :
    Gentle (fun ending => ∃ answer, asked.Looks answer ∧ answer.toOption = ending)
      (table.call asked : Pool.Action σ asked.Reply) := by
  cases asked with
  | insert key value => exact .of_uncounted fun _ ⟨_, looks, _⟩ => looks
  | find key => exact (table.find_gentle key).mono fun _ _ => trivial
  | remove key =>
    refine (table.remove_gentle key).mono fun ending counts => ?_
    obtain ⟨_, rfl, rfl⟩ := counts
    rfl
  | verify => exact table.verify_gentle.mono fun _ _ => trivial
  | attach name options => exact (attach_gentle name _ _ _ options).mono fun _ _ => trivial

/-! ### Operations in states that can be reached -/

variable [PageKeeper σ] {session : Session σ} {pool : Pool σ}

/-- What an operation leaves as it was. -/
structure Careful (leases : List Lease) (before after : Pool σ) (looked : Prop) : Prop where
  pins : ∀ page, after.pinsOf page = before.pinsOf page
  loaded : ∀ page, before.contains page = false → after.pinsOf page = 0
  shown : looked → ∀ page, Pool.Firm (owedBy leases) before page → after.visible page = before.visible page
  /-- Only a page that shows zeros may not be firm, and none in memory. -/
  firm : ∀ page, before.visible page ≠ Page.zero ∨ PageKeeper.Tight σ → Pool.Firm (owedBy leases) before page
  unmarked : looked → ∀ page, after.Dirty page → before.Dirty page

theorem careful_of_kept {looked : Prop} (before : session.Kept) (after : Session.Kept { session with pool })
    (lasts : looked → session.Lasts { session with pool })
    (unmarked : looked → ∀ page, pool.Dirty page → session.pool.Dirty page) :
    Careful session.leases session.pool pool looked := by
  have pins : ∀ page, pool.pinsOf page = session.pool.pinsOf page := fun page =>
    (after.sound.pins page).trans (before.sound.pins page).symm
  have coherent := before.sound.coherent
  refine ⟨pins, fun page absent => ?_, fun looked page firm => (lasts looked page firm).2, fun page known => ?_,
    unmarked⟩
  · rw [pins, Pool.pinsOf_absent (Pool.absent_iff.mp absent)]
  · exact known.elim coherent.firm fun tight => coherent.firm_of_tight tight page

theorem creating_careful (kept : session.Kept) {name : String} {compare : K → K → Ordering} {hash : K → UInt32}
    {options : Options} {answer : Except Error (Table K V)}
    (done : Answers (Table.create name compare hash options) session.pool answer pool) :
    Careful session.leases session.pool pool False :=
  careful_of_kept kept (creating kept done).1 False.elim False.elim

variable [Reopening σ]

/-- Where a table may be called: in a session that it has come to, or in a new pool over what was flushed. -/
inductive Standing (table : Table K V) : Session σ → Prop where
  | reached {session : Session σ} (reached : Reached table session) : Standing table session
  | restarted {session : Session σ} {pool : Pool σ} (reached : Reached table session)
      (restarted : Restarted table session pool) : Standing table { pool, origin := pool.next }

/-- An operation in a state that can be reached, and the answers with which it must have only looked at pages. -/
inductive Operation : Session σ → {α : Type} → Pool.Action σ α → (Except Error α → Prop) → Prop where
  | first {K V : Type} [FixedWidth K] [FixedWidth V] {store : σ} {events : List Event} {session : Session σ}
      (run : Session.Run store events session) (name : String) (compare : K → K → Ordering) (hash : K → UInt32)
      (options : Options) :
      Operation session (Table.create name compare hash options : Pool.Action σ (Table K V)) fun _ => False
  | beside {K V : Type} [FixedWidth K] [FixedWidth V] {Key Value : Type} [FixedWidth Key] [FixedWidth Value]
      [RoundTrips Key] [RoundTrips Value] {table : Table Key Value} {session : Session σ}
      (standing : Standing table session) (name : String) (compare : K → K → Ordering) (hash : K → UInt32)
      (options : Options) :
      Operation session (Table.create name compare hash options : Pool.Action σ (Table K V)) fun _ => False
  | called {K V : Type} [FixedWidth K] [FixedWidth V] [RoundTrips K] [RoundTrips V]
      {table handle : Table K V} {session : Session σ} (standing : Standing table session)
      (shares : Shares table handle) (asked : Call K V) : Operation session (handle.call asked) asked.Looks

variable [RoundTrips K] [RoundTrips V]

theorem Standing.alive (standing : Standing table session) : ∃ entries, Alive table session entries := by
  cases standing with
  | reached reached => exact reached.alive
  | restarted reached restarted =>
    obtain ⟨entries, alive⟩ := reached.alive
    obtain ⟨kept, stores, _⟩ := alive.restarted restarted
    exact ⟨entries, kept, stores⟩

theorem Standing.call_careful (standing : Standing table session) (shares : Shares table handle)
    {answer : Except Error asked.Reply} (done : Answers (handle.call asked) session.pool answer pool) :
    Careful session.leases session.pool pool (asked.Looks answer) := by
  obtain ⟨entries, alive⟩ := standing.alive
  have alive := alive.shared shares
  obtain ⟨list, called⟩ := alive.called done
  have coherent := alive.kept.sound.coherent
  have clean := handle.call_gentle asked session.pool ⟨coherent.kept, coherent.blank⟩
  refine careful_of_kept alive.kept called.alive.kept (fun looks => (called.still looks).1) fun looks => ?_
  cases answer with
  | ok reply =>
    rw [show handle.call asked session.pool = _ from done] at clean
    exact (clean ⟨.ok reply, looks, rfl⟩).dirty
  | error error =>
    rw [show handle.call asked session.pool = _ from done] at clean
    exact (clean ⟨.error error, looks, rfl⟩).dirty

omit [FixedWidth K] [FixedWidth V] [RoundTrips K] [RoundTrips V] in
/-- However an operation ends, all pins are given back; and if it only looked at pages, none of them has changed or
was marked. -/
theorem Operation.careful {α : Type} {action : Pool.Action σ α} {looks : Except Error α → Prop}
    (operation : Operation session action looks) {answer : Except Error α}
    (done : Answers action session.pool answer pool) :
    Careful session.leases session.pool pool (looks answer) := by
  cases operation with
  | first run => exact creating_careful run.kept done
  | beside standing =>
    obtain ⟨_, alive⟩ := standing.alive
    exact creating_careful alive.kept done
  | called standing shares => exact standing.call_careful shares done

/-- A lookup in one of two buckets, and a removal that finds nothing in the other. -/
theorem careful_split : ∃ (table : Table UInt32 UInt32) (session : Session RamStore) (first second : Pool RamStore),
    table.leaf session.pages 0 ≠ table.leaf session.pages 1 ∧
      Answers (table.call (.find 0)) session.pool (.ok [10]) first ∧
      Careful session.leases session.pool first True ∧
      Answers (table.call (.remove 5)) first (.ok false) second ∧
      Careful session.leases first second ((.ok false : Except Error Bool) = .ok false) := by
  obtain ⟨table, start, session, created, life, paired⟩ := exists_split_life
  have agrees := paired.agrees
  obtain ⟨first, found, living, eased⟩ := paired.alive.find_answered paired.eased agrees 0
  obtain ⟨second, removed, -⟩ := living.remove_answered eased agrees 5
  rw [paired.compares] at found removed
  change Answers _ _ (.ok [10]) _ at found
  change Answers _ _ (.ok false) _ at removed
  have reached : Reached table session := .lived (.created created) life
  have again : Reached table { session with pool := first } := .lived reached (Life.begun.found 0 found)
  have shares : Shares table table := .refl paired.alive.stores.configured
  have finding := Operation.called (.reached reached) shares (.find 0)
  have removing := Operation.called (.reached again) shares (.remove 5)
  exact ⟨table, session, first, second, paired.apart, found, finding.careful found, removed, removing.careful removed⟩

end Table

end PagedIndex
