import Mathlib
import PagedIndex.Proofs.Pool.Flushing
import PagedIndex.Proofs.Store.Reopening
import PagedIndex.Proofs.Table.Life

/-!
# Tables that are opened again

When all pages of a pool were flushed, a new pool over the same store shows the pages of a table as they were,
and a table that is opened there by its header stores what it stored.
-/

namespace PagedIndex

open PageKeeper (held)
open Pool (Models)

namespace Table

variable {K V σ : Type} [FixedWidth K] [FixedWidth V] {table opened : Table K V} {pages : Pages}
  {entries : List (K × V)} {page : PageId}

theorem Stores.renumbered (stores : Stores table pages entries) {next : UInt32}
    (behind : ∀ page, Owns table pages page → page.number < next) : Stores table ⟨pages.content, next⟩ entries where
  configured := stores.configured
  routes := stores.routes
  issued := behind table.header (.inl rfl)
  vacant := stores.vacant
  houses slot small valid := by
    obtain ⟨state, limit, houses⟩ := stores.houses slot small valid
    have owned : ∀ page, Reaches pages (table.branch pages slot) page → page.number < next := fun page reached =>
      behind page (.inr ⟨slot, small, valid, reached⟩)
    exact ⟨state, limit, houses.denotes, owned _ (.inl rfl), houses.shelves.formed, houses.shelves.empty,
      fun page mentioned => owned page ((houses.reaches_iff page).mpr (.inr mentioned)), houses.shelves.holds⟩
  apart := stores.apart

variable [BackingStore σ] [PageKeeper σ] {session : Session σ} {pool : Pool σ}

theorem Alive.made_apart (alive : Alive table session entries) {id : FrameId}
    (made : Pool.new session.pool = .ok (page, id) pool) :
    page.number = session.pool.next ∧ ¬ Owns table session.pages page := by
  have effect := alive.kept.sound.coherent.kept.new
  rw [made] at effect
  obtain ⟨_, number, _⟩ := effect.quiet_ok alive.kept.sound.coherent
  refine ⟨number, fun owns => ?_⟩
  have old : page.number < session.pool.next := alive.stores.owned_issued owns
  rw [number] at old
  exact UInt32.lt_irrefl _ old

variable [Reopening σ]

/-- All pages of a session were flushed, none of the table's being changed under a pin that somebody still has,
and there is a new pool over the same store. -/
inductive Restarted (table : Table K V) (session : Session σ) (pool : Pool σ) : Prop where
  | over {last : Pool σ} {fresh : σ} {size k : Nat}
      (settled : ∀ lease ∈ session.leases, lease.dirty = true → ¬ Owns table session.pages lease.page)
      (flushed : Pool.flushAll session.pool = .ok () last) (again : Reopening.Reopens last.disk.store fresh)
      (made : Pool.create size k fresh = .ok pool)

theorem Alive.restarted (alive : Alive table session entries) (restarted : Restarted table session pool) :
    let fresh : Session σ := { pool, origin := pool.next }
    fresh.Kept ∧ Stores table fresh.memory.toPages entries ∧
      ∀ page, Owns table session.pages page →
        pool.visible page = session.pool.visible page ∧ page.number < pool.next := by
  obtain ⟨-, flushed, again, made⟩ := restarted
  rename_i last fresh size k
  have coherent := alive.kept.sound.coherent
  obtain ⟨quiet, _⟩ := coherent.flushEach _ (.inl flushed)
  obtain ⟨intact, same⟩ := Reopening.reopened again quiet.coherent.usable
  have bounded : BackingStore.bound fresh = .ok pool.next := by
    obtain ⟨next, replacer, bounded, -, rfl⟩ := Pool.create_eq made
    exact bounded
  have shown : ∀ page, Owns table session.pages page → pool.visible page = session.pool.visible page := by
    intro page owns
    have secured := coherent.flushAll_secured flushed (coherent.firm (alive.stores.written owns))
    rw [Session.visible_created made, same page secured.tight]
    exact secured.holds.symm
  -- A store holds zeros from its end on, and no page of the table is zero.
  have behind : ∀ page, Owns table session.pages page → page.number < pool.next := by
    intro page owns
    by_contra outside
    have zero := PageKeeper.bound_ok intact.usable bounded page (UInt32.not_lt.mp outside)
    rw [← Session.visible_created made, shown page owns] at zero
    exact alive.stores.written owns zero
  have moved : Stores table ⟨session.pool.visible, pool.next⟩ entries := alive.stores.renumbered behind
  exact ⟨Session.created_kept intact bounded made, moved.congr shown (UInt32.le_refl _),
    fun page owns => ⟨shown page owns, behind page owns⟩⟩

variable {name : String} {options : Options} {later : Pool σ}

theorem Alive.attached (alive : Alive table session entries) (restarted : Restarted table session pool)
    (done : Table.attach name table.compare table.hash table.header options pool = .ok opened later) :
    Alive opened ({ pool := later, origin := pool.next } : Session σ) entries := by
  obtain ⟨kept, stores, _⟩ := alive.restarted restarted
  have checked : options.check K V = .ok () := by
    cases checked : options.check K V with
    | ok value => rfl
    | error failure =>
      rw [Table.attach, Pool.bind_error (Pool.lift_error checked)] at done
      cases done
  have answers :
      Pool.Answers (Table.attach name table.compare table.hash table.header options) pool (.ok opened) later := done
  obtain ⟨_, models, _, rfl, stores⟩ := (attach_runs checked stores rfl).answers (kept.models False.elim) answers
  obtain ⟨kept, shown⟩ := kept.called models rfl (UInt32.le_refl _)
  exact ⟨kept, stores.shown shown⟩

/-- A table that was made, was used, and was opened again by other pools, in any order and any number of times. -/
inductive Reached : Table K V → Session σ → Prop where
  | created {table : Table K V} {session : Session σ} (created : Created table session) : Reached table session
  | lived {table : Table K V} {start session : Session σ} {deeds : List (Deed K V)} (before : Reached table start)
      (life : Life table start deeds session) : Reached table session
  | reopened {table opened : Table K V} {session : Session σ} {pool later : Pool σ} {name : String} {options : Options}
      (before : Reached table session) (restarted : Restarted table session pool)
      (done : Table.attach name table.compare table.hash table.header options pool = .ok opened later) :
      Reached opened { pool := later, origin := pool.next }

variable [RoundTrips K] [RoundTrips V]

theorem Reached.alive (reached : Reached table session) : ∃ entries, Alive table session entries := by
  induction reached with
  | created created => exact ⟨[], created.alive⟩
  | lived before life ih =>
    obtain ⟨entries, alive⟩ := ih
    obtain ⟨list, still, _⟩ := life.alive alive
    exact ⟨list, still⟩
  | reopened before restarted done ih =>
    obtain ⟨entries, alive⟩ := ih
    exact ⟨entries, alive.attached restarted done⟩

end Table

end PagedIndex
