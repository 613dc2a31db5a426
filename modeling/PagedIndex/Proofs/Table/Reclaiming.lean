import Mathlib
import PagedIndex.Proofs.Table.Removing

/-!
# What reclaiming leaves behind

Uniting an empty bucket with its buddies, and halving the directory, moves no entry. That holds also where it stops
half-way, because a page cannot be fetched: every round was done in full then, and the directory was not halved.
-/

namespace PagedIndex.Table

open DirectoryState

variable {K V σ : Type} [FixedWidth K] [FixedWidth V] [BackingStore σ] [PageKeeper σ] {leases : List Lease}
  {hash : K → UInt32} {directory : PageId} {limit slot : Nat} {entries : List (K × V)} {state : DirectoryState}
  {pool : Pool σ}

/-- What so many rounds from a slot on leave behind, if the directory was not changed otherwise than by halving it. -/
structure Folds (hash : K → UInt32) (directory : PageId) (limit : Nat) (entries : List (K × V)) (leases : List Lease)
    (state : DirectoryState) (slot : Nat) (pool later : Pool σ) (count : Nat) (middle : DirectoryState) (final : Nat)
    (last : DirectoryState) : Prop where
  rounds : Rounds hash entries count state slot middle final
  depth : middle.depth final + count = state.depth slot
  houses : Houses hash later.pages directory last limit entries
  routes : ∀ key, ∃ page reach, routeIn key (pool.visible directory) = .ok (page, reach) ∧
    routeIn key (later.visible directory) = .ok (
      if key.toNat % 2 ^ middle.depth final = slot % 2 ^ middle.depth final then
        (middle.bucket final, middle.depth final)
      else (page, reach))
  kept : ∀ page, last.Mentions page → state.Mentions page ∧ later.visible page = pool.visible page
  stored : ∀ page, last.Mentions page → Bucket.Holds (later.visible page) limit (routed hash state.home page entries) ∧
    ∀ entry ∈ routed hash state.home page entries, ∃ reach,
      routeIn (hash entry.1) (later.visible directory) = .ok (page, reach)
  dropped : ∀ page, state.Mentions page → ¬ last.Mentions page → routed hash state.home page entries = []
  others : ∀ page, page ≠ directory → ¬ state.Mentions page → Pool.Firm (owedBy leases) pool page →
    later.visible page = pool.visible page
  sound : Pool.Sound leases (({directory} : Multiset PageId).count ·) later

/-- How reclaiming ends: with a failure after some rounds, or after the last one that is possible, with a directory that
is no deeper than its deepest bucket. -/
inductive Reclaims (hash : K → UInt32) (directory : PageId) (limit : Nat) (entries : List (K × V)) (leases : List Lease)
    (state : DirectoryState) (slot : Nat) (pool : Pool σ) : Pool.Result σ Unit → Prop where
  | failed {failure : Failure} {later : Pool σ} {count final : Nat} {last : DirectoryState}
      (folds : Folds hash directory limit entries leases state slot pool later count last final last) :
      Reclaims hash directory limit entries leases state slot pool (.error failure later)
  | done {later : Pool σ} {count final : Nat} {middle last : DirectoryState} (halted : Halted hash entries middle final)
      (folds : Folds hash directory limit entries leases state slot pool later count middle final last)
      (halved : Halved middle last) (within : ∀ other < last.size, last.depth other ≤ last.globalDepth)
      (deepest : ∃ other < last.size, last.depth other = last.globalDepth) :
      Reclaims hash directory limit entries leases state slot pool (.ok () later)

/-- A page that was let go of is one that the directory had reached. -/
theorem Folded.dropped {before after : Annals} {count final : Nat} {middle last : DirectoryState} {page : PageId}
    (folded : Folded hash directory limit entries before after state slot count middle final last)
    (unmarked : before.marks = []) (dropped : page ∈ droppedIn after.marks) :
    Reaches before.toPages directory page := by
  obtain ⟨marks, noted, booked⟩ := folded.tends.books
  rw [noted, unmarked, List.nil_append] at dropped
  refine ((booked.kept_iff page).mpr (.inr dropped)).resolve_right fun made => ?_
  obtain ⟨low, high⟩ := booked.young page made
  rw [folded.next] at high
  exact UInt32.not_lt.mpr low high

theorem Folded.folds {marks : List Mark} {next : Memory} {later : Pool σ} {count final : Nat}
    {middle last : DirectoryState} {memory : Memory}
    (folded : Folded hash directory limit entries memory.toAnnals next.toAnnals state slot count middle final last)
    (halved : Halved middle last) (starts : memory = pool.outset leases {state.bucket slot, directory})
    (houses : Houses hash memory.toPages directory state limit entries) (small : slot < state.size)
    (mentioned : state.Mentions (state.bucket slot)) (follows : memory.Follows marks next)
    (ends : Pool.Models leases False next later) (pins : next.pins = {directory}) :
    Folds hash directory limit entries leases state slot pool later count middle final last := by
  subst starts
  have united := folded.rounds.united houses.shelves.formed small mentioned
  have lasting := folded.houses.shown ends.pages
  have home : ∀ key, last.home key = _ := fun key => (halved.home key).trans (united.home key)
  have reach : ∀ key, last.reach key = _ := fun key => (halved.reach key).trans (united.reach key)
  have leads : ∀ key, routeIn key (later.visible directory) = .ok (last.home key, last.reach key) := fun key =>
    routeIn_ok lasting.denotes lasting.shallow key
  have shelved : ∀ page, routed hash last.home page entries = routed hash state.home page entries := fun page => by
    rw [← united.shelved page]
    simp only [routed, halved.home]
  have mentions : ∀ page, last.Mentions page → state.Mentions page := fun page there =>
    united.mentions page ((halved.mentions page).mp there)
  refine {
    rounds := folded.rounds
    depth := united.depth
    houses := lasting
    routes := fun key => ⟨state.home key, state.reach key, routeIn_ok houses.denotes houses.shallow key, ?_⟩
    kept := fun page there => ⟨mentions page there, ?_⟩
    stored := fun page there => ⟨?_, fun entry member => ⟨last.reach (hash entry.1), ?_⟩⟩
    dropped := fun page there gone => united.dropped page there fun still => gone ((halved.mentions page).mpr still)
    others := fun page other unknown firm => ?_
    sound := by
      have sound := ends.sound
      rwa [pins] at sound }
  · rw [leads, home, reach]
    split <;> rfl
  · have written := (folded.houses.shelves.holds page there).written
    exact (ends.pages.content page written).trans
      (folded.content page (folded.houses.apart there) fun _ => (halved.mentions page).mp there)
  · rw [← shelved]
    exact lasting.shelves.holds page there
  · rw [← shelved] at member
    rw [leads, of_decide_eq_true (List.mem_filter.mp member).2]
  · have stays : page ∉ droppedIn next.marks := fun dropped =>
      ((houses.reaches_iff page).mp (folded.dropped rfl dropped)).elim other unknown
    have firm_next : next.firm page := by
      rw [follows.firm]
      exact firm
    exact (ends.sure page (.inl ⟨firm_next, stays⟩)).2.trans
      (folded.content page other fun there => absurd there unknown)

theorem uniteOnce_whole {memory : Memory} (houses : Houses hash memory.toPages directory state limit entries)
    (small : slot < state.size) (held : directory ∈ memory.pins) (models : Pool.Models leases False memory pool)
    (flat : state.depth slot = 0) : uniteOnce K V directory slot (state.bucket slot) pool = .ok none pool := by
  have alone : state.buddy? slot (state.bucket slot) = none := if_pos (.inl flat)
  have asked : Pool.view directory (fun page => do (← Directory.ofBytes page).buddy? slot (state.bucket slot)) pool =
      .ok none pool := by
    refine (models.view_eq held _).trans (Pool.lift_ok ?_)
    rw [bind_of_ok _ houses.denotes.ofBytes,
      houses.denotes.buddy? houses.shallow small (houses.shelves.formed.depth_le slot small), alone]
  rw [uniteOnce, Pool.bind_ok asked]
  rfl

omit [PageKeeper σ] in
theorem uniteWithin_succ (rounds slot : Nat) (bucket : PageId) :
    (uniteWithin K V directory (rounds + 1) slot bucket : Pool.Action σ Unit) =
      Pool.entrusting bucket (uniteOnce K V directory slot bucket) >>= fun
        | none => Pool.unpin bucket false >>= fun _ => pure ()
        | some (next, kept) => uniteWithin K V directory rounds next kept :=
  rfl

/-- No more rounds are made than the bucket is deep, however many are allowed. -/
theorem uniteWithin_enough {memory : Memory} {rounds more : Nat}
    (houses : Houses hash memory.toPages directory state limit entries) (small : slot < state.size)
    (mentioned : state.Mentions (state.bucket slot)) (held : memory.pins = {state.bucket slot, directory})
    (models : Pool.Models leases False memory pool) (enough : state.depth slot ≤ rounds) (plenty : rounds ≤ more) :
    uniteWithin K V directory more slot (state.bucket slot) pool =
      uniteWithin K V directory rounds slot (state.bucket slot) pool := by
  induction rounds generalizing memory state slot pool more with
  | zero =>
    cases more with
    | zero => rfl
    | succ more =>
      have whole := uniteOnce_whole houses small (by simp [held]) models (Nat.le_zero.mp enough)
      rw [uniteWithin_succ, Pool.bind_ok (Pool.entrusting_ok whole)]
      rfl
  | succ rounds ih =>
    obtain ⟨more, rfl⟩ : ∃ less, more = less + 1 := ⟨more - 1, by omega⟩
    have formed := houses.shelves.formed
    have once : Pool.Runs leases ⟨False, False⟩ (uniteOnce K V directory slot _ : Pool.Action σ _) memory _ _ :=
      uniteOnce_runs houses small mentioned held
    have trusted : Pool.Runs leases ⟨False, False⟩ (Pool.entrusting (state.bucket slot) _ : Pool.Action σ _) memory _
        fun _ => True :=
      Pool.Runs.entrusting {directory} (once.mono (fun _ _ => id) fun _ same => ⟨same ▸ held, trivial⟩)
    obtain ⟨_, -, -, ends⟩ := trusted pool models
    generalize run :
      Pool.entrusting (state.bucket slot) (uniteOnce K V directory slot (state.bucket slot)) pool = result at ends
    -- Both ways make the same round, and have as many rounds left beyond the depth of the bucket as before.
    cases ends with
    | overflow _ full => exact full.elim
    | error => rw [uniteWithin_succ, uniteWithin_succ, Pool.bind_error run, Pool.bind_error run]
    | @ok answer later next models known =>
      obtain ⟨-, known⟩ := known
      cases answer with
      | none => rw [uniteWithin_succ, uniteWithin_succ, Pool.bind_ok run, Pool.bind_ok run]
      | some answer =>
        obtain ⟨goal, kept⟩ := answer
        obtain ⟨last, rfl, held, folded⟩ := known
        have united := folded.rounds.united formed small mentioned
        have shallower := united.depth
        rw [uniteWithin_succ, uniteWithin_succ, Pool.bind_ok run, Pool.bind_ok run]
        exact ih folded.houses united.small united.mentioned held models (by omega) (by omega)

/-- What reclaiming does with a directory and a bucket that its caller has pinned. The bucket need not be empty. -/
theorem reclaim_effect
    (sound : Pool.Sound leases (({state.bucket slot, directory} : Multiset PageId).count ·) pool)
    (houses : Houses hash pool.pages directory state limit entries) (small : slot < state.size)
    (valid : (state.bucket slot).isValid = true) :
    (∀ rounds, state.depth slot ≤ rounds → uniteWithin K V directory rounds slot (state.bucket slot) pool =
        uniteWithin K V directory (state.depth slot) slot (state.bucket slot) pool) ∧
      Reclaims hash directory limit entries leases state slot pool
        (reclaim K V directory slot (state.bucket slot) pool) := by
  let memory : Memory := pool.outset leases {state.bucket slot, directory}
  have mentioned : state.Mentions (state.bucket slot) := ⟨valid, slot, small, rfl⟩
  have written : ∀ page ∈ ({state.bucket slot, directory} : Multiset PageId), pool.visible page ≠ Page.zero := by
    intro page pinned
    refine houses.reached_written ((houses.reaches_iff page).mpr ?_)
    rcases Multiset.mem_cons.mp pinned with rfl | there
    · exact .inr mentioned
    · exact .inl (Multiset.mem_singleton.mp there)
  have models : Pool.Models leases False memory pool := sound.models written False.elim
  refine ⟨fun rounds enough => uniteWithin_enough houses small mentioned rfl models (Nat.le_refl _) enough, ?_⟩
  have reclaims : Pool.Runs leases ⟨False, False⟩ (reclaim K V directory slot _ : Pool.Action σ Unit) memory _ _ :=
    reclaim_runs houses small mentioned rfl
  obtain ⟨_, -, -, ends⟩ := reclaims pool models
  generalize reclaim K V directory slot (state.bucket slot) pool = result at ends
  cases ends with
  | ok later known =>
    obtain ⟨follows, pins, count, middle, final, last, halted, shrinks, least, folded⟩ := known
    have formed := (folded.rounds.united houses.shelves.formed small mentioned).formed
    have halved := formed.halved shrinks
    exact .done halted (folded.folds halved rfl houses small mentioned follows later pins) halved
      halved.formed.depth_le (halved.formed.deepest least)
  | error later known =>
    obtain ⟨follows, pins, count, last, final, folded⟩ := known
    have formed := (folded.rounds.united houses.shelves.formed small mentioned).formed
    exact .failed (folded.folds (formed.halved (.done last)) rfl houses small mentioned follows later pins)
  | overflow _ full => exact full.elim

theorem exists_half_empty : ∃ (pool : Pool RamStore) (state : DirectoryState), 0 < state.size ∧ state.depth 0 = 1 ∧
    state.bucket 0 = ⟨1⟩ ∧ Pool.Sound [] (({⟨1⟩, ⟨0⟩} : Multiset PageId).count ·) pool ∧
      Houses (fun key : UInt32 => key) pool.pages ⟨0⟩ state 2 [((1 : UInt32), (11 : UInt32))] := by
  obtain ⟨directory, denotes⟩ := exists_sole ⟨1⟩
  obtain ⟨_, -, empty⟩ := @Bucket.format_ok UInt32 UInt32 _ _ Page.zero 2 (by decide) (by decide)
  obtain ⟨bucket, -, holds⟩ := empty.insert (by decide) 1 11
  let table : Table UInt32 UInt32 := ⟨"t", Ord.compare, fun key => key, ⟨0⟩, 2, 2⟩
  let before (rest : PageId → Page) : Annals :=
    ⟨⟨fun page => if page = ⟨0⟩ then directory else if page = ⟨1⟩ then bucket else rest page, 2⟩, []⟩
  have houses : ∀ rest, Houses table.hash (before rest).toPages ⟨0⟩
      (((Directory.freshState 2).setBucket 0 ⟨1⟩).setDepth 0 0) 2 [((1 : UInt32), (11 : UInt32))] := by
    intro rest
    have bare : Shelves table.hash (before rest).content 0 (Directory.freshState 2) 0 ([] : List (UInt32 × UInt32)) :=
      shelves_fresh (by decide)
    exact ⟨denotes, (by decide : (0 : UInt32) < 2), bare.first rfl rfl (by decide : (1 : UInt32) < 2) holds⟩
  have single : 0 < (Directory.freshState 2).size := Nat.two_pow_pos _
  have whole := houses fun _ => bucket
  obtain ⟨_, _, kept, filled, listed, last, halving⟩ := exists_halving whole.denotes whole.shelves.formed single rfl rfl
    (whole.shelves.holds _ ⟨rfl, 0, single, rfl⟩) (fun deepest => absurd deepest.2 (by decide : ¬ 2 ≤ 0)) table ⟨2⟩
  obtain ⟨pool, rfl, rfl, rfl, next, sound⟩ := exists_stocked listed kept filled halving.moved.written
  have young : (⟨pool.pages, [.made ⟨2⟩]⟩ : Annals).next = (before pool.visible).next + 1 := next
  have less : (before pool.visible).next < (before pool.visible).next + 1 := (by decide : (2 : UInt32) < 3)
  have ends := (houses pool.visible).divided halving.deep ⟨rfl, 0, single, rfl⟩ rfl young (young ▸ less) rfl
    halving.linked halving.kept halving.moved fun page other old _ => by
      change page ≠ ⟨1⟩ at old
      simp [before, Pool.pages, other, old]
  have shown := divide_slot (⟨1⟩ : PageId) ⟨2⟩ 0 halving.deep.small
  exact ⟨pool, last.divide ⟨1⟩ ⟨2⟩ 0, halving.deep.small, shown.2.trans (if_pos halving.deep.bucket),
    shown.1.trans ((if_neg (by simp)).trans halving.deep.bucket), sound, ends.1⟩

/-- The empty one of two halves leaves its slot to the other one. -/
theorem reclaim_effect_empty_half : ∃ (pool : Pool RamStore) (state : DirectoryState), state.depth 0 = 1 ∧
    Houses (fun key : UInt32 => key) pool.pages ⟨0⟩ state 2 [((1 : UInt32), (11 : UInt32))] ∧
      Reclaims (fun key : UInt32 => key) ⟨0⟩ 2 [((1 : UInt32), (11 : UInt32))] [] state 0 pool
        (reclaim UInt32 UInt32 ⟨0⟩ 0 ⟨1⟩ pool) := by
  obtain ⟨pool, state, small, deep, here, sound, houses⟩ := exists_half_empty
  rw [← here] at sound
  have effect := reclaim_effect sound houses small (by rw [here]; rfl)
  rw [here] at effect
  exact ⟨pool, state, deep, houses, effect.2⟩

end PagedIndex.Table
