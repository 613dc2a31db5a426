import Mathlib
import PagedIndex.Proofs.Table.Reached
import PagedIndex.Proofs.Table.Verifying

/-!
# Tables that outlive their pool

A table that is opened again is found with all its entries, passes its check, and goes on as if nothing had
happened.
-/

namespace PagedIndex.Table

open Pool (Eased)

variable {K V σ : Type} [FixedWidth K] [FixedWidth V] {table : Table K V} {pages after : Pages}
  {entries : List (K × V)} {key : K}

theorem Stores.listing_congr (stores : Stores table pages entries)
    (same : ∀ page, Owns table pages page → after.content page = pages.content page) :
    table.listing after key entries = table.listing pages key entries := by
  obtain ⟨branches, _, routing⟩ := outline_congr (same table.header (.inl rfl))
  have small := stores.route_lt (table.hash key)
  have gathered_same :
      table.gathered after (table.hash key) entries = table.gathered pages (table.hash key) entries := by
    rw [gathered, routing, gathered]
  by_cases valid : (table.root pages (table.hash key)).isValid = true
  · have directory := same (table.root pages (table.hash key)) (.inr ⟨_, small, valid, .inl rfl⟩)
    rw [listing, gathered_same, root, branches, routing, ← root, directory, listing]
  · have nowhere : (table.root pages (table.hash key)).isValid = false := by simpa using valid
    have nothing : table.gathered pages (table.hash key) entries = [] := stores.vacant _ small nowhere
    rw [listing_of_none nothing, listing_of_none (gathered_same.trans nothing)]

variable [BackingStore σ] [PageKeeper σ] [Reopening σ] [RoundTrips K] [RoundTrips V] {session : Session σ}
  {pool : Pool σ} {options : Options}

/-- A table whose pages were flushed is found again with all its entries, in order, by any pool of three frames over
the same store. It goes on as the list that it was, and no page that is made from then on is one of its own. -/
theorem Reached.persists (reached : Reached table session) (restarted : Restarted table session pool)
    (enough : 3 ≤ pool.size) (reliable : pool.disk.Reliable) (checked : options.check K V = .ok ()) (name : String) :
    ∃ entries opened later, Stores table session.pages entries ∧
      Table.attach name table.compare table.hash table.header options pool = .ok opened later ∧
      (∀ key, ∃ values after, opened.find key later = .ok values after ∧
        (∀ old before, table.find key session.pool = .ok old before → values = old) ∧
        (Agrees table.compare table.hash → values = under table.compare key entries)) ∧
      (∃ after, opened.verify later = .ok () after) ∧
      ∀ deeds last, Life opened ({ pool := later, origin := pool.next } : Session σ) deeds last →
        (Agrees table.compare table.hash → (∀ deed ∈ deeds, ¬ deed.Broke) →
          Deed.AllRight table.compare entries deeds ∧
            Stores opened last.pages (deeds.foldl (Deed.after table.compare) entries)) ∧
        ∀ page id next, Pool.new last.pool = .ok (page, id) next →
          ¬ Owns opened last.pages page ∧ ¬ Owns table session.pages page := by
  obtain ⟨entries, alive⟩ := reached.alive
  obtain ⟨kept, stores, owned⟩ := alive.restarted restarted
  let fresh : Session σ := { pool, origin := pool.next }
  have eased : Eased fresh.leases pool := ⟨reliable, enough, fun _ => (by decide : 0 + 1 < wordBound)⟩
  obtain ⟨_, later, _, done, models, rfl, rfl, stores_later⟩ :=
    (attach_runs checked stores rfl).total (kept.models fun _ => eased) False.elim
  obtain ⟨_, shown⟩ := kept.called models rfl (UInt32.le_refl _)
  have living := alive.attached restarted done
  refine ⟨entries, _, later, alive.stores, done, fun key => ?_, ?_, fun deeds last life => ⟨fun agrees whole => ?_, ?_⟩⟩
  · obtain ⟨_, after, _, found, _, rfl, rfl⟩ := (find_runs stores_later rfl key).total models False.elim
    refine ⟨_, after, found, fun old before earlier => ?_, fun agrees => listing_eq agrees ..⟩
    have answers : Pool.Answers (table.find key) session.pool (.ok old) before := earlier
    rw [(alive.found answers).2.2 old rfl]
    exact alive.stores.listing_congr fun page owns => (owned page owns).1
  · obtain ⟨_, after, _, verified, _⟩ := (verify_runs stores_later rfl).total models False.elim
    exact ⟨after, verified⟩
  · obtain ⟨right, ends⟩ := Life.listed (by exact agrees) life living whole
    exact ⟨right, ends.stores⟩
  · intro page id next made
    obtain ⟨list, ends, keeps⟩ := life.alive living
    obtain ⟨number, apart⟩ := ends.made_apart made
    have more : pool.next ≤ last.pool.next := by
      have first : later.next = pool.next := shown.next
      rw [← first]
      exact keeps.next
    refine ⟨apart, fun owns => ?_⟩
    have old := UInt32.lt_of_lt_of_le (owned page owns).2 more
    rw [number] at old
    exact UInt32.lt_irrefl _ old

/-- A table of two buckets that was flushed to memory is found again by another pool, with both entries. -/
theorem persists_in_memory : ∃ (table opened : Table UInt32 UInt32) (session : Session RamStore)
    (pool later : Pool RamStore),
    table.leaf session.pages 0 ≠ table.leaf session.pages 1 ∧ Restarted table session pool ∧
      Table.attach "t" table.compare table.hash table.header {} pool = .ok opened later ∧
      (∃ after, opened.find 0 later = .ok [10] after) ∧ (∃ after, opened.find 1 later = .ok [11] after) ∧
      ∃ after, opened.verify later = .ok () after := by
  obtain ⟨table, start, session, created, life, paired⟩ := exists_split_life
  have agrees := paired.agrees
  obtain ⟨_, first, -, -⟩ := paired.alive.find_answered paired.eased agrees 0
  obtain ⟨_, second, -, -⟩ := paired.alive.find_answered paired.eased agrees 1
  rw [paired.compares] at first second
  obtain ⟨last, flushed, still⟩ := paired.eased.flushAll paired.alive.kept.sound
  obtain ⟨quiet, -⟩ := paired.alive.kept.sound.coherent.flushEach _ (.inl flushed)
  obtain ⟨pool, made⟩ : ∃ pool, Pool.create 3 2 last.disk.store = .ok pool :=
    ⟨_, bind_of_ok _ quiet.coherent.usable.bound_eq⟩
  obtain ⟨disk, size⟩ : pool.disk = ⟨last.disk.store, true⟩ ∧ 3 ≤ pool.size := by
    obtain ⟨_, _, -, -, rfl⟩ := Pool.create_eq made
    exact ⟨rfl, Nat.le_refl 3⟩
  have restarted : Restarted table session pool := by
    refine .over (fun lease member => ?_) flushed rfl made
    rw [paired.alone] at member
    cases member
  have reliable : pool.disk.Reliable := by
    rw [disk, ← still.reliable.running]
    exact still.reliable
  have checked : ({} : Options).check UInt32 UInt32 = .ok () := rfl
  obtain ⟨_, opened, later, -, attached, finds, verified, -⟩ :=
    (Reached.lived (.created created) life).persists restarted size reliable checked "t"
  obtain ⟨_, after, found, same, -⟩ := finds 0
  obtain ⟨_, after_too, found_too, same_too, -⟩ := finds 1
  rw [same _ _ first] at found
  rw [same_too _ _ second] at found_too
  exact ⟨table, opened, session, pool, later, paired.apart, restarted, attached, ⟨after, found⟩, ⟨after_too, found_too⟩,
    verified⟩

end PagedIndex.Table
