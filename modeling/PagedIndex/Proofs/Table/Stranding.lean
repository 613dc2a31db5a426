import Mathlib
import PagedIndex.Proofs.Pool.Crowding
import PagedIndex.Proofs.Table.Reached

/-!
# Operations that want a third frame

With two frames to spare an operation has its directory and a bucket pinned, and gets no third page. A removal that
has emptied its bucket wants the buddy of it when the entries are gone already. An insertion that has to split its
bucket wants a new page before it writes anything.
-/

namespace PagedIndex.Table

open DirectoryState
open Pool (Comes Gives Snug Spent keeping entrusting view)

variable {K V σ : Type} [FixedWidth K] [FixedWidth V] [BackingStore σ] [PageKeeper σ] {leases : List Lease}
  {table : Table K V} {memory later : Memory} {directory bucket : PageId} {state : DirectoryState} {limit slot : Nat}
  {entries : List (K × V)} {key : K} {value : V} {hash : K → UInt32}

theorem pins_pin_first (free : memory.pins = 0) (page : PageId) : (memory.pin page).pins = {page} := by
  rw [Memory.pins_pin, free]
  rfl

theorem pins_pin_second (pins : memory.pins = {directory}) (page : PageId) :
    (memory.pin page).pins = {page, directory} := by
  rw [Memory.pins_pin, pins]
  rfl

/-- No client has pinned a page that a directory reaches. -/
def Private (leases : List Lease) (pages : Pages) (directory : PageId) : Prop :=
  ∀ page, Reaches pages directory page → leased leases page = 0

theorem Houses.spent (houses : Houses hash memory.toPages directory state limit entries)
    (own : Private leases memory.toPages directory) (mentioned : state.Mentions bucket)
    (held : memory.pins = {bucket, directory}) : Spent leases 2 memory := by
  have reached : ∀ page ∈ memory.pins, Reaches memory.toPages directory page := fun page pinned => by
    rw [houses.reaches_iff]
    rcases (by simpa [held] using pinned : page = bucket ∨ page = directory) with rfl | rfl
    · exact .inr mentioned
    · exact .inl rfl
  refine ⟨fun page pinned => own page (reached page pinned), Nat.le_of_eq ?_⟩
  simp [held, houses.apart mentioned]

theorem Stores.pinDirectory_comes (stores : Stores table memory.toPages entries) (free : memory.pins = 0)
    {hash : UInt32} (valid : (table.root memory.toPages hash).isValid = true) :
    Comes leases 2 (table.pinDirectory hash : Pool.Action σ PageId) memory (.ok (table.root memory.toPages hash))
      (memory.pin (table.root memory.toPages hash)) := by
  have legible := stores.legible
  have readable := legible.rooted valid
  have apart : table.root memory.toPages hash ≠ table.header := fun same =>
    legible.header_apart (legible.route_lt hash) valid (.inl same.symm)
  refine Comes.fetch legible.issued (by simp [free]) (by simp [free]) legible.routes.written fun _ => ?_
  refine Comes.keeping ((memory.pin table.header).pin (table.root memory.toPages hash))
    (table.root memory.toPages hash ::ₘ memory.pins) ?_ (Multiset.cons_swap _ _ _)
  refine Comes.step (Gives.view (table.root memory.toPages hash) (Multiset.mem_cons_self _ _) ?_).comes ?_
  · exact legible.directoryIn hash
  rw [if_pos valid]
  exact Comes.fetch (readable.issued _ (.inl rfl)) (by simp [free]) (by simpa [free] using apart)
    readable.denotes.written fun _ => (Gives.pure _).comes

/-! ### Removing -/

/-- The other half of a bucket is a bucket as well. -/
def Twin (state : DirectoryState) (slot : Nat) : Prop :=
  ∃ depth, state.depth slot = depth + 1 ∧ state.depth (slot ^^^ 2 ^ depth) = depth + 1

theorem uniteOnce_refused (houses : Houses hash memory.toPages directory state limit entries)
    (small : slot < state.size) (mentioned : state.Mentions (state.bucket slot))
    (held : memory.pins = {state.bucket slot, directory}) (own : Private leases memory.toPages directory)
    (twin : Twin state slot) :
    Comes leases 2 (uniteOnce K V directory slot (state.bucket slot) : Pool.Action σ (Option (Nat × PageId))) memory
      (.error .noFreeFrames) memory := by
  have formed := houses.shelves.formed
  have full := formed.mentions_valid mentioned
  obtain ⟨depth, deep, level⟩ := twin
  refine Comes.step (Gives.view (state.buddy? slot (state.bucket slot)) (by simp [held]) ?_).comes ?_
  · rw [bind_of_ok _ houses.denotes.ofBytes]
    exact houses.denotes.buddy? houses.shallow small (formed.depth_le slot small) _
  cases found : state.buddy? slot (state.bucket slot) with
  | none => exact absurd level (formed.image_of_no_buddy small full found deep)
  | some buddy =>
    obtain ⟨_, image⟩ := buddy
    obtain ⟨depth, rfl, buddies, rfl⟩ := formed.buddies_of_buddy? small found
    have there : state.Mentions (state.bucket (slot ^^^ 2 ^ depth)) :=
      ⟨full _ buddies.small_y, _, buddies.small_y, rfl⟩
    exact Comes.stop (Comes.fetch_refused (houses.spent own mentioned held) (houses.shelves.issued _ there)
      (by simpa [held] using ⟨buddies.apart.symm, houses.apart there⟩)
      (own _ ((houses.reaches_iff _).mpr (.inr there))))

theorem reclaim_refused (houses : Houses hash memory.toPages directory state limit entries)
    (small : slot < state.size) (mentioned : state.Mentions (state.bucket slot))
    (held : memory.pins = {state.bucket slot, directory}) (own : Private leases memory.toPages directory)
    (twin : Twin state slot) :
    Comes leases 2 (reclaim K V directory slot (state.bucket slot) : Pool.Action σ Unit) memory (.error .noFreeFrames)
      { memory with pins := {directory} } := by
  have pinned : directory ∈ memory.pins := by simp [held]
  have sizes : Gives leases (do
        Pool.touch directory
        view directory fun page => do (← Directory.ofBytes page).size : Pool.Action σ Nat)
      memory state.size memory := by
    refine Gives.step (Gives.touch pinned) (Gives.view _ pinned ?_)
    rw [bind_of_ok _ houses.denotes.ofBytes, houses.denotes.size houses.shallow]
  obtain ⟨rounds, count⟩ := Nat.exists_eq_succ_of_ne_zero (Nat.ne_of_gt state.size_pos)
  rw [count] at sizes
  -- There is a round, and it fails before anything is united.
  exact Comes.step sizes.comes.entrusting (Comes.stop (Comes.stop
    ((uniteOnce_refused houses small mentioned held own twin).entrusting_error {directory} held)))

/-- A removal that empties a bucket is refused when the entries are gone. -/
theorem removeIn_refused (houses : Houses table.hash memory.toPages directory state limit entries)
    (pins : memory.pins = {directory}) (own : Private leases memory.toPages directory)
    (twin : Twin state ((table.hash key).toNat % state.size))
    (valid : (state.home (table.hash key)).isValid = true) :
    let shelf := routed table.hash state.home (state.home (table.hash key))
    under table.compare key (shelf entries) ≠ [] →
    shelf (struck table.hash state.home table.compare key entries) = [] →
    ∃ later, Comes leases 2 (table.removeIn directory key : Pool.Action σ Bool) memory (.error .noFreeFrames) later ∧
      Settled table.hash directory (struck table.hash state.home table.compare key entries) memory later := by
  intro shelf some_found emptied
  have mentioned := mentions_home valid
  have under_pin : Houses table.hash (memory.pin (state.home (table.hash key))).toPages directory state limit entries :=
    houses
  have both := pins_pin_second pins (state.home (table.hash key))
  obtain ⟨left, shelved, erases⟩ :=
    eraseIn_gives (σ := σ) leases under_pin valid (Multiset.mem_cons_self _ _) some_found
  obtain ⟨ends, tends⟩ := under_pin.rewritten mentioned shelved fun other differ =>
    routed_struck_other key entries differ
  have still : Private leases ((memory.pin (state.home (table.hash key))).write _ left).toPages directory :=
    fun page reached => own page (by rwa [houses.reaches_iff, ← ends.reaches_iff])
  refine ⟨{ (memory.pin (state.home (table.hash key))).write (state.home (table.hash key)) left with
    pins := {directory} }, ?_, pins.symm, ⟨_, _, ends⟩, tends⟩
  refine Comes.step (Gives.view _ (by simp [pins]) (houses.bucketIn (table.hash key))).comes ?_
  dsimp only
  rw [valid]
  refine Comes.fetch (houses.shelves.issued _ mentioned) (by simp [pins])
    (by simpa [pins] using houses.apart mentioned) (houses.shelves.holds _ mentioned).written fun _ => ?_
  refine Comes.step erases.comes.entrusting ?_
  change routed table.hash state.home (state.home (table.hash key)) _ = [] at emptied
  rw [emptied]
  exact Comes.stop (reclaim_refused ends (state.slot_lt _) mentioned both still twin)

theorem Stores.remove_refused (stores : Stores table memory.toPages entries) (free : memory.pins = 0)
    (valid : (table.root memory.toPages (table.hash key)).isValid = true)
    (houses : Houses table.hash memory.toPages (table.root memory.toPages (table.hash key)) state limit
      (table.gathered memory.toPages (table.hash key) entries))
    (own : Private leases memory.toPages (table.root memory.toPages (table.hash key)))
    (twin : Twin state ((table.hash key).toNat % state.size))
    (some_home : (state.home (table.hash key)).isValid = true) :
    let shelf := routed table.hash state.home (state.home (table.hash key))
    let here := table.gathered memory.toPages (table.hash key) entries
    under table.compare key (shelf here) ≠ [] →
    shelf (struck table.hash state.home table.compare key here) = [] →
    ∃ later, Comes leases 2 (table.remove key : Pool.Action σ Bool) memory (.error .noFreeFrames) later ∧
      ∃ list, Rid table key entries list ∧ Serves table list memory later := by
  intro shelf here found emptied
  have under_pin : Houses table.hash (memory.pin (table.root memory.toPages (table.hash key))).toPages _ state limit
      here := houses
  have pins := pins_pin_first free (table.root memory.toPages (table.hash key))
  obtain ⟨later, comes, settled⟩ :=
    removeIn_refused (σ := σ) under_pin pins own twin some_home found emptied
  obtain ⟨list, rid, back, serves⟩ := stores.rid valid settled
  refine ⟨_, ?_, list, rid, serves⟩
  refine Comes.step (stores.pinDirectory_comes free valid) ?_
  rw [valid]
  exact Comes.keeping later memory.pins comes back

/-! ### Inserting -/

theorem divideBucket_refused {key : UInt32} (houses : Houses table.hash memory.toPages directory state limit entries)
    (mentioned : state.Mentions (state.home key)) (held : memory.pins = {state.home key, directory})
    (own : Private leases memory.toPages directory) (shallow : state.reach key < state.maxDepth) :
    Comes leases 2 (table.divideBucket directory (key.toNat % state.size) (state.home key) : Pool.Action σ Bool) memory
      (.error .noFreeFrames) memory := by
  have formed := houses.shelves.formed
  have holds := houses.shelves.holds _ mentioned
  rw [divideBucket_eq]
  refine Comes.step (Gives.view _ (by simp [held]) (depthsAt_ok houses.denotes formed (state.slot_lt key))).comes ?_
  dsimp only
  have room : ¬ (state.reach key = state.globalDepth ∧ state.maxDepth ≤ state.globalDepth) := by
    omega
  rw [← DirectoryState.reach, if_neg room]
  refine Comes.step (Gives.view limit (by simp [held]) (limitOf_ok holds)).comes ?_
  exact Comes.stop (Comes.new_refused (houses.spent own mentioned held))

/-- An insertion that has to split a bucket is refused before it has changed anything. -/
theorem insertOrSplit_refused (houses : Houses table.hash memory.toPages directory state limit entries)
    (pins : memory.pins = {directory}) (own : Private leases memory.toPages directory)
    (valid : (state.home (table.hash key)).isValid = true) (shallow : state.reach (table.hash key) < state.maxDepth)
    (full : limit ≤ (routed table.hash state.home (state.home (table.hash key)) entries).length) :
    Comes leases 2 (table.insertOrSplit directory key value : Pool.Action σ (Option Bool)) memory
      (.error .noFreeFrames) memory := by
  have mentioned := mentions_home valid
  have holds := houses.shelves.holds _ mentioned
  have under_pin : Houses table.hash (memory.pin (state.home (table.hash key))).toPages directory state limit entries :=
    houses
  have both := pins_pin_second pins (state.home (table.hash key))
  refine Comes.step (Gives.view _ (by simp [pins]) (houses.bucketIn (table.hash key))).comes ?_
  dsimp only
  rw [valid]
  refine Comes.fetch (houses.shelves.issued _ mentioned) (by simp [pins])
    (by simpa [pins] using houses.apart mentioned) holds.written fun _ => ?_
  refine Comes.keeping (memory.pin _) memory.pins ?_ rfl
  refine Comes.step (Gives.view true (Multiset.mem_cons_self _ _) ?_).comes ?_
  · rw [Memory.content_pin, bind_of_ok _ holds.ofBytes, holds.isFull, decide_eq_true full]
  exact Comes.stop (divideBucket_refused under_pin mentioned both own shallow)

theorem Stores.insert_refused (stores : Stores table memory.toPages entries) (free : memory.pins = 0)
    (valid : (table.root memory.toPages (table.hash key)).isValid = true)
    (houses : Houses table.hash memory.toPages (table.root memory.toPages (table.hash key)) state limit
      (table.gathered memory.toPages (table.hash key) entries))
    (own : Private leases memory.toPages (table.root memory.toPages (table.hash key)))
    (some_home : (state.home (table.hash key)).isValid = true) (shallow : state.reach (table.hash key) < state.maxDepth)
    (full : limit ≤ (routed table.hash state.home (state.home (table.hash key))
      (table.gathered memory.toPages (table.hash key) entries)).length) :
    Comes leases 2 (table.insert key value : Pool.Action σ Bool) memory (.error .noFreeFrames) memory := by
  have pins := pins_pin_first free (table.root memory.toPages (table.hash key))
  have limited := houses.shelves.formed.limited
  refine Comes.step (?_ : Comes leases 2 (table.pinOrMakeDirectory (table.hash key)) memory
    (.ok (table.root memory.toPages (table.hash key))) (memory.pin (table.root memory.toPages (table.hash key)))) ?_
  · refine Comes.step (stores.pinDirectory_comes free valid) ?_
    rw [if_pos valid]
    exact (Gives.pure _).comes
  refine Comes.keeping (memory.pin _) memory.pins ?_ rfl
  refine Comes.step (Gives.view state.maxDepth (Multiset.mem_cons_self _ _) ?_).comes ?_
  · rw [Memory.content_pin, bind_of_ok _ houses.denotes.ofBytes, houses.denotes.maxDepth]
  rw [if_neg (by simp only [maxDirectoryDepth] at limited; simp only [wordBound]; omega)]
  have under_pin : Houses table.hash (memory.pin (table.root memory.toPages (table.hash key))).toPages _ state limit
      (table.gathered memory.toPages (table.hash key) entries) := houses
  -- The first pass has to split the bucket.
  exact Comes.stop (insertOrSplit_refused under_pin pins own some_home shallow full)

/-! ### In a session -/

section Session

variable {session : Session σ} (alive : Alive table session entries) (snug : Snug session.leases 2 session.pool)
  (valid : (table.root session.pages (table.hash key)).isValid = true)
  (houses : Houses table.hash session.pages (table.root session.pages (table.hash key)) state limit
    (table.gathered session.pages (table.hash key) entries))
  (own : Private session.leases session.pages (table.root session.pages (table.hash key)))
  (some_home : (state.home (table.hash key)).isValid = true)

include alive snug valid houses own some_home

/-- A removal that leaves its bucket empty is answered by an error, and has taken the entries out. -/
theorem Alive.remove_stranded (twin : Twin state ((table.hash key).toNat % state.size))
    (found : under table.compare key (routed table.hash state.home (state.home (table.hash key))
      (table.gathered session.pages (table.hash key) entries)) ≠ [])
    (emptied : routed table.hash state.home (state.home (table.hash key)) (struck table.hash state.home table.compare
      key (table.gathered session.pages (table.hash key) entries)) = []) :
    ∃ pool list, table.remove key session.pool = .error (.error .noFreeFrames) pool ∧ Rid table key entries list ∧
      Alive table { session with pool } list := by
  obtain ⟨later, comes, list, rid, serves⟩ :=
    alive.seen.remove_refused (σ := σ) rfl valid houses own twin some_home found emptied
  obtain ⟨pool, answers, models, -⟩ := comes session.pool (alive.kept.models False.elim) snug
  exact ⟨pool, list, answers, rid, (alive.served models serves).1⟩

/-- An insertion that has to split its bucket is answered by an error, and has done nothing. -/
theorem Alive.insert_stranded (shallow : state.reach (table.hash key) < state.maxDepth)
    (full : limit ≤ (routed table.hash state.home (state.home (table.hash key))
      (table.gathered session.pages (table.hash key) entries)).length) (value : V) :
    ∃ pool, table.insert key value session.pool = .error (.error .noFreeFrames) pool ∧
      Alive table { session with pool } entries := by
  have comes : Comes session.leases 2 (table.insert key value : Pool.Action σ Bool) _ _ _ :=
    alive.seen.insert_refused rfl valid houses own some_home shallow full
  obtain ⟨pool, answers, models, -⟩ := comes session.pool (alive.kept.models False.elim) snug
  exact ⟨pool, answers, (alive.served models alive.seen.serves).1⟩

end Session

/-- The directory of a hash stays where it is, and as it is, while clients keep off the pages of the table. -/
theorem Alive.outside_rooted {session next : Session σ} {event : Event} {key : UInt32} {list : List (K × V)}
    (alive : Alive table session entries) (step : session.Step event next)
    (spares : event.Spares (Owns table session.pages)) (valid : (table.root session.pages key).isValid = true)
    (houses : Houses table.hash session.pages (table.root session.pages key) state limit list) :
    table.root next.pages key = table.root session.pages key ∧
      Houses table.hash next.pages (table.root session.pages key) state limit list := by
  obtain ⟨-, keeps⟩ := alive.outside step spares
  have spared := alive.spared step spares
  have small := alive.stores.route_lt key
  refine ⟨keeps.root small valid, houses.congr (fun page reached => ?_) keeps.next⟩
  exact spared page (.inr ⟨_, small, valid, reached⟩)

/-! ### Two buckets in a pool of three frames -/

theorem reach_pos (formed : state.Formed) {first second : UInt32} (differ : state.home first ≠ state.home second) :
    0 < state.reach second := by
  refine Nat.pos_of_ne_zero fun flat => differ ((formed.home_eq_home_iff first second).mpr ?_)
  rw [flat, Nat.pow_zero, Nat.mod_one, Nat.mod_one]

theorem twin_of_two (two : state.globalDepth = 1) (even : state.reach 0 = 1) (odd : state.reach 1 = 1) :
    Twin state ((0 : UInt32).toNat % state.size) := by
  have size : state.size = 2 := by rw [DirectoryState.size, two, Nat.pow_one]
  rw [DirectoryState.reach, size] at even odd
  rw [size]
  exact ⟨0, even, odd⟩

section Paired

variable {table : Table UInt32 UInt32} {session : Session RamStore} (paired : Paired table session)

include paired

/-- The one directory leads to two buckets. -/
theorem Paired.halves : (table.root session.pages (table.hash 0)).isValid = true ∧
    Houses table.hash session.pages (table.root session.pages (table.hash 0)) (table.shape session.pages 0) 1
      [((0 : UInt32), (10 : UInt32)), (1, 11)] ∧
    ((table.shape session.pages 0).home (table.hash 0)).isValid = true ∧ (table.shape session.pages 0).maxDepth = 2 ∧
    (table.shape session.pages 0).home (table.hash 0) ≠ (table.shape session.pages 0).home (table.hash 1) := by
  obtain ⟨valid, houses, leads, some_home, deep⟩ := paired.single.housed paired.alive.stores List.mem_cons_self
  refine ⟨valid, houses, some_home, deep, ?_⟩
  rw [← leads, ← leads, paired.hashes]
  exact paired.apart

theorem Paired.reach : (table.shape session.pages 0).reach (table.hash 0) = 1 ∧
    (table.shape session.pages 0).reach (table.hash 1) = 1 := by
  obtain ⟨-, houses, -, -, differ⟩ := paired.halves
  have formed := houses.shelves.formed
  have once := paired.deep
  have low := fun hash => formed.reach_le_global hash
  rw [once] at low
  exact ⟨Nat.le_antisymm (low _) (reach_pos formed differ.symm), Nat.le_antisymm (low _) (reach_pos formed differ)⟩

/-- There is a page for a client, and a frame for it. -/
theorem Paired.lends : ∃ page id pool, Pool.new session.pool = .ok (page, id) pool ∧ pool.disk.Reliable ∧
    pool.size = 3 := by
  have sound : Pool.Sound session.leases ((0 : Multiset PageId).count ·) session.pool := by
    simpa using paired.alive.kept.sound
  rcases paired.eased.made sound (Nat.succ_pos 2) sound.coherent.kept.new with
    ⟨⟨page, id⟩, pool, done, eased⟩ | ⟨_, _, -, -, full⟩
  · have size := Pool.Leaves.size (.new_ok done)
    rw [done] at size
    exact ⟨page, id, pool, done, eased.reliable, size.trans paired.three⟩
  · exact absurd (Nat.lt_of_le_of_lt (by omega) paired.room) full

end Paired

theorem snug_of_three {pool : Pool RamStore} (reliable : pool.disk.Reliable) (size : pool.size = 3) (lease : Lease) :
    Snug [lease] 2 pool := by
  have one : (Pool.lent [lease]).card = 1 := by simp [Pool.lent]
  change pool.frames.size = 3 at size
  refine ⟨⟨reliable, by omega, fun page => ?_⟩, by omega⟩
  exact Nat.lt_of_le_of_lt (Nat.succ_le_succ List.countP_le_length) (by decide : 1 + 1 < wordBound)

/-- A client has one of three frames, and two entries of a table have each a bucket of their own. -/
structure Stranded (table : Table UInt32 UInt32) (session : Session RamStore) (state : DirectoryState) : Prop where
  compares : table.compare = Ord.compare
  alive : Alive table session [(0, 10), (1, 11)]
  snug : Snug session.leases 2 session.pool
  valid : (table.root session.pages (table.hash 0)).isValid = true
  houses : Houses table.hash session.pages (table.root session.pages (table.hash 0)) state 1
    (table.gathered session.pages (table.hash 0) [((0 : UInt32), (10 : UInt32)), (1, 11)])
  own : Private session.leases session.pages (table.root session.pages (table.hash 0))
  some_home : (state.home (table.hash 0)).isValid = true
  shallow : state.reach (table.hash 0) < state.maxDepth
  twin : Twin state ((table.hash 0).toNat % state.size)
  shelf : routed table.hash state.home (state.home (table.hash 0))
    (table.gathered session.pages (table.hash 0) [((0 : UInt32), (10 : UInt32)), (1, 11)]) = [(0, 10)]

theorem Paired.strands {table : Table UInt32 UInt32} {session : Session RamStore} (paired : Paired table session) :
    ∃ page later state, session.Step (.made page) later ∧ Stranded table later state := by
  have alive := paired.alive
  have hashes := paired.hashes
  have once := paired.deep
  obtain ⟨valid, houses, some_home, deep, differ⟩ := paired.halves
  obtain ⟨reach, reach_too⟩ := paired.reach
  generalize table.shape session.pages 0 = state at once houses some_home deep differ reach reach_too
  obtain ⟨page, id, pool, done, reliable, size⟩ := paired.lends
  let later : Session RamStore := { session with
    pool
    holders := .bare { page, frame := id } :: session.holders
    issued := page :: session.issued }
  have step : session.Step (.made page) later := .new done
  have leases : later.leases = [{ page, frame := id }] := congrArg (_ :: ·) paired.alone
  obtain ⟨-, apart⟩ := alive.made_apart done
  obtain ⟨still, keeps⟩ := alive.outside step trivial
  obtain ⟨root, moved⟩ := alive.outside_rooted step trivial valid houses
  have gathered (list : List (UInt32 × UInt32)) : table.gathered later.pages (table.hash 0) list = list := by
    rw [Table.gathered, keeps.route]
    exact paired.single.gathered_eq alive.stores (table.hash 0) list
  refine ⟨page, later, state, step, paired.compares, still, ?_, ?_, ?_, fun other reached => ?_,
    some_home, by omega, ?_, ?_⟩
  · rw [leases]
    exact snug_of_three reliable size _
  · rw [root]
    exact valid
  · rw [root, gathered]
    exact moved
  · rw [root, moved.reaches_iff, ← houses.reaches_iff] at reached
    rw [leases, leased, List.countP_eq_zero]
    simp only [List.mem_singleton, forall_eq, decide_eq_true_eq]
    rintro rfl
    exact apart (.inr ⟨_, alive.stores.route_lt (table.hash 0), valid, reached⟩)
  · rw [hashes] at reach reach_too ⊢
    exact twin_of_two once reach reach_too
  · rw [gathered, hashes]
    rw [hashes] at differ
    simp [routed, differ.symm]

section Stranded

variable {table : Table UInt32 UInt32} {session : Session RamStore} (stranded : Stranded table session state)

include stranded

theorem Stranded.insert : ∃ pool, table.insert 0 12 session.pool = .error (.error .noFreeFrames) pool ∧
    Alive table { session with pool } [(0, 10), (1, 11)] :=
  stranded.alive.insert_stranded stranded.snug stranded.valid stranded.houses stranded.own stranded.some_home
    stranded.shallow (by rw [stranded.shelf]; exact Nat.le_refl 1) 12

theorem Stranded.remove (agrees : Agrees table.compare table.hash) :
    ∃ pool, table.remove 0 session.pool = .error (.error .noFreeFrames) pool ∧
      Alive table { session with pool } [(1, 11)] := by
  have compares := stranded.compares
  obtain ⟨pool, list, fails, rid, still⟩ := stranded.alive.remove_stranded stranded.snug stranded.valid stranded.houses
    stranded.own stranded.some_home stranded.twin (by rw [stranded.shelf, compares]; exact List.cons_ne_nil _ _)
    (by rw [routed_struck_home, stranded.shelf, compares]; rfl)
  rw [rid agrees, compares] at still
  exact ⟨pool, fails, still⟩

end Stranded

end PagedIndex.Table
