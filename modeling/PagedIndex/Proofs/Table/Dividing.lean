import Mathlib
import PagedIndex.Proofs.Table.Depths
import PagedIndex.Proofs.Table.Houses
import PagedIndex.Record.Integer
import PagedIndex.Table.Insert

/-!
# Dividing a bucket

A bucket keeps those of its entries whose hashes have the next bit clear, and a new page, its image, takes the
others. The directory is made deeper before, if the bucket is as deep as it. Only the new page may be refused,
and nothing is written before there is one.
-/

namespace PagedIndex

namespace DirectoryState

variable {state : DirectoryState}

theorem reach_divide (bucket image : PageId) (depth : Nat) (hash : UInt32) :
    (state.divide bucket image depth).reach hash =
      if state.home hash = bucket then depth + 1 else state.reach hash :=
  (divide_slot bucket image depth (state.slot_lt hash)).2

end DirectoryState

namespace Table

open DirectoryState
open Pool (Gives Models keeping view edit amend)

variable {K V σ : Type} {table : Table K V} {directory bucket image : PageId} {state : DirectoryState}
  {slot limit : Nat} {entries : List (K × V)} {bytes : Page}

/-! ### The directory -/

/-- Before a bucket is split its directory is made deeper than it, if that may be. -/
structure Deepened (state : DirectoryState) (slot : Nat) (bytes : Page) (last : DirectoryState) : Prop where
  denotes : Directory.Denotes bytes last
  formed : last.Formed
  small : slot < last.size
  bucket : last.bucket slot = state.bucket slot
  depth : last.depth slot = state.depth slot
  less : last.depth slot < last.globalDepth
  globalDepth : last.globalDepth = max state.globalDepth (state.depth slot + 1)
  slots : ∀ other < last.size, last.bucket other = state.bucket (other % state.size) ∧
    last.depth other = state.depth (other % state.size)
  maxDepth : last.maxDepth = state.maxDepth
  home : ∀ hash, last.home hash = state.home hash
  reach : ∀ hash, last.reach hash = state.reach hash
  mentions : ∀ page, last.Mentions page ↔ state.Mentions page

/-- The directory cannot be made deeper than the bucket of a slot. -/
def Deepest (state : DirectoryState) (slot : Nat) : Prop :=
  state.depth slot = state.globalDepth ∧ state.maxDepth ≤ state.globalDepth

theorem exists_deepened (denotes : Directory.Denotes bytes state) (formed : state.Formed) (small : slot < state.size)
    (valid : (state.bucket slot).isValid = true) (room : ¬ Deepest state slot) :
    ∃ later last, Deepened state slot later last ∧
      (state.depth slot = state.globalDepth →
        Directory.double ⟨bytes⟩ = .ok (⟨later⟩ : Directory pageSize)) ∧
      (state.depth slot ≠ state.globalDepth → later = bytes) := by
  by_cases full : state.depth slot = state.globalDepth
  · have deeper : state.globalDepth < state.maxDepth := Nat.lt_of_not_le fun most => room ⟨full, most⟩
    obtain ⟨later, done, denotes⟩ := denotes.double deeper formed.limited
    have less : slot < state.double.size := by
      rw [size_double]
      omega
    have kept := double_slot less
    rw [Nat.mod_eq_of_lt small] at kept
    refine ⟨later, state.double, ⟨denotes, formed.double deeper (formed.full small valid), less, kept.1, kept.2, ?_, ?_,
      fun other => double_slot, rfl, home_double, reach_double, mentions_double_iff⟩, fun _ => done,
      fun other => absurd full other⟩
    · rw [kept.2, full]
      exact Nat.lt_succ_self _
    · rw [full]
      exact (Nat.max_eq_right (Nat.le_succ _)).symm
  · have less := formed.depth_le slot small
    refine ⟨_, state, ⟨denotes, formed, small, rfl, rfl, by omega, by omega, fun other little => ?_, rfl,
      fun _ => rfl, fun _ => rfl, fun _ => Iff.rfl⟩, fun same => absurd same full, fun _ => rfl⟩
    rw [Nat.mod_eq_of_lt little]
    exact ⟨rfl, rfl⟩

section Deepened

variable {last : DirectoryState} (deep : Deepened state slot bytes last)

include deep

theorem Deepened.global_eq (formed : state.Formed) (small : slot < state.size) :
    last.globalDepth = if state.depth slot = state.globalDepth then state.globalDepth + 1 else state.globalDepth := by
  have shallow := formed.depth_le slot small
  rw [deep.globalDepth]
  split <;> omega

theorem Deepened.formed_divide (valid : image.isValid = true) (full : (state.bucket slot).isValid = true)
    (unknown : ¬ state.Mentions image) : (last.divide (state.bucket slot) image (state.depth slot)).Formed := by
  have all : ∀ other < last.size, (last.bucket other).isValid = true := deep.formed.full deep.small (deep.bucket ▸ full)
  rw [← deep.bucket, ← deep.depth]
  refine deep.formed.divide deep.small deep.less valid (fun other little same => unknown ?_) all
  exact (deep.mentions image).mp ⟨valid, other, little, same⟩

end Deepened

variable [FixedWidth K] [FixedWidth V]

/-! ### The pages -/

/-- What the steps of a split make of their pages: of a new page the image, of the directory one that is deep
enough, of the bucket and the image the two halves, and of the directory one that lists both. -/
structure Halving (table : Table K V) (content : PageId → Page) (directory bucket image : PageId)
    (state : DirectoryState) (slot limit : Nat) (entries : List (K × V)) (fresh bytes kept filled linked : Page)
    (last : DirectoryState) : Prop where
  formatted : Bucket.format (content image) limit = .ok (⟨fresh⟩ : Bucket K V pageSize)
  blank : Bucket.ofBytes fresh = .ok (⟨fresh⟩ : Bucket K V pageSize)
  doubled : state.depth slot = state.globalDepth →
    Directory.double ⟨content directory⟩ = .ok (⟨bytes⟩ : Directory pageSize)
  same : state.depth slot ≠ state.globalDepth → bytes = content directory
  deep : Deepened state slot bytes last
  divided : Bucket.split (fun key => (table.hash key).toNat.testBit (state.depth slot))
    (⟨content bucket⟩ : Bucket K V pageSize) ⟨fresh⟩ = .ok (⟨kept⟩, ⟨filled⟩)
  listed : Directory.divide ⟨bytes⟩ bucket image (state.depth slot) = .ok (⟨linked⟩ : Directory pageSize)
  kept : Bucket.Holds kept limit (entries.filter fun entry => !(table.hash entry.1).toNat.testBit (state.depth slot))
  moved : Bucket.Holds filled limit (entries.filter fun entry => (table.hash entry.1).toNat.testBit (state.depth slot))
  linked : Directory.Denotes linked (last.divide bucket image (state.depth slot))

theorem exists_halving [RoundTrips K] [RoundTrips V] {content : PageId → Page}
    (denotes : Directory.Denotes (content directory) state) (formed : state.Formed) (small : slot < state.size)
    (here : state.bucket slot = bucket) (valid : bucket.isValid = true)
    (holds : Bucket.Holds (content bucket) limit entries) (room : ¬ Deepest state slot) (table : Table K V)
    (image : PageId) : ∃ fresh bytes kept filled linked last,
      Halving table content directory bucket image state slot limit entries fresh bytes kept filled linked last := by
  obtain ⟨bytes, last, deep, doubled, same⟩ := exists_deepened denotes formed small (here ▸ valid) room
  obtain ⟨fresh, formatted, blank⟩ := Bucket.format_ok (K := K) (V := V) (content image) holds.positive holds.fits
  obtain ⟨kept, filled, divided, holds_kept, holds_moved⟩ :=
    holds.split (fun key => (table.hash key).toNat.testBit (state.depth slot)) blank
  obtain ⟨linked, listed, denotes⟩ := deep.denotes.divide deep.formed.shallow_max deep.formed.limited bucket image
    (Nat.lt_of_lt_of_le (deep.depth ▸ deep.less) deep.formed.shallow)
  exact ⟨fresh, bytes, kept, filled, linked, last, formatted, blank.ofBytes, doubled, same, deep, divided, listed,
    holds_kept, holds_moved, denotes⟩

/-! ### The steps -/

variable [BackingStore σ]

/-- What a split does once it has a page for the image. -/
def fillHalves (table : Table K V) (directory bucket : PageId) (localDepth globalDepth limit : Nat) (image : PageId) :
    Pool.Action σ Bool :=
  keeping image do
    amend image fun page => do
      let fresh : Bucket K V pageSize ← Bucket.format page limit
      return fresh.bytes
    if localDepth = globalDepth then
      amend directory fun page => do return (← (← Directory.ofBytes page).double).bytes
    let _ ← powerOfTwo localDepth
    let empty : Bucket K V pageSize ← view image Bucket.ofBytes
    let moved ← edit bucket fun page => do
      let full ← Bucket.ofBytes page
      let (kept, moved) ← Bucket.split (fun key => (table.hash key).toNat.testBit localDepth) full empty
      return (moved.bytes, kept.bytes)
    amend image fun _ => return moved
    amend directory fun page => do
      return (← (← Directory.ofBytes page).divide bucket image localDepth).bytes
    return true

/-- How many bits a bucket and its directory use, and how many the directory may use. -/
def depthsAt (slot : Nat) (page : Page) : Outcome (Nat × Nat × Nat) := do
  let directory ← Directory.ofBytes page
  return (← directory.localDepth slot, ← directory.globalDepth, ← directory.maxDepth)

def limitOf (K V : Type) [FixedWidth K] [FixedWidth V] (page : Page) : Outcome Nat := do
  let bucket : Bucket K V pageSize ← Bucket.ofBytes page
  bucket.limit

theorem divideBucket_eq (table : Table K V) (directory : PageId) (slot : Nat) (bucket : PageId) :
    (table.divideBucket directory slot bucket : Pool.Action σ Bool) =
      (view directory (depthsAt slot) >>= fun depths =>
        if depths.1 = depths.2.1 ∧ depths.2.2 ≤ depths.2.1 then return false
        else view bucket (limitOf K V) >>= fun limit => Pool.new >>= fun made =>
          table.fillHalves directory bucket depths.1 depths.2.1 limit made.1) := rfl

variable [PageKeeper σ] {leases : List Lease} {memory : Memory} {rest : Multiset PageId}

theorem depthsAt_ok (denotes : Directory.Denotes bytes state) (formed : state.Formed) (small : slot < state.size) :
    depthsAt slot bytes = .ok (state.depth slot, state.globalDepth, state.maxDepth) := by
  rw [depthsAt, bind_of_ok _ denotes.ofBytes, bind_of_ok _ (denotes.localDepth formed.shallow_max small),
    bind_of_ok _ denotes.globalDepth, bind_of_ok _ denotes.maxDepth]
  rfl

theorem limitOf_ok (holds : Bucket.Holds bytes limit entries) : limitOf K V bytes = .ok limit := by
  rw [limitOf, bind_of_ok _ holds.ofBytes, holds.limit]

/-- The memory after the steps of a split. -/
def halved (memory : Memory) (directory bucket image : PageId) (fresh bytes kept filled linked : Page) : Memory :=
  ((((memory.write image fresh).write directory bytes).write bucket kept).write image filled).write directory linked

omit [FixedWidth K] [FixedWidth V] [BackingStore σ] [PageKeeper σ] in
theorem content_halved (memory : Memory) (directory bucket image page : PageId)
    (fresh bytes kept filled linked : Page) :
    (halved memory directory bucket image fresh bytes kept filled linked).content page =
      if page = directory then linked else if page = image then filled else if page = bucket then kept
      else memory.content page := by
  simp only [halved, Memory.content_write]
  by_cases home : page = directory <;> by_cases young : page = image <;> simp [home, young]

section Halving

variable {content : PageId → Page} {fresh kept filled linked : Page} {last : DirectoryState}

theorem Halving.gives
    (halving :
      Halving table content directory bucket image state slot limit entries fresh bytes kept filled linked last)
    (shows : content = memory.content) (denotes : Directory.Denotes (memory.content directory) state)
    (formed : state.Formed) (small : slot < state.size) (holds : Bucket.Holds (memory.content bucket) limit entries)
    (apart : bucket ≠ directory) (young : image ≠ directory) (other : image ≠ bucket)
    (pinned : memory.pins = image ::ₘ rest) (held_directory : directory ∈ rest) (held_bucket : bucket ∈ rest) :
    Gives leases
      (table.fillHalves directory bucket (state.depth slot) state.globalDepth limit image : Pool.Action σ Bool)
      memory true { halved memory directory bucket image fresh bytes kept filled linked with pins := rest } := by
  subst shows
  have shallow : state.depth slot < 32 := by
    have deep := formed.depth_le slot small
    have bound := formed.shallow_max
    simp only [maxDirectoryDepth] at bound
    omega
  have mine : image ∈ memory.pins := by simp [pinned]
  have held_directory : directory ∈ memory.pins := by simp [pinned, held_directory]
  have held_bucket : bucket ∈ memory.pins := by simp [pinned, held_bucket]
  refine Gives.keeping rest ?_ pinned
  refine Gives.step (Gives.amend fresh mine ?_) ?_
  · rw [bind_of_ok _ halving.formatted]
    rfl
  -- Whether the directory had to grow or not, it is as deep as the split needs it from here on.
  refine Gives.branch ((memory.write image fresh).write directory bytes) (fun full => ?_) (fun less => ?_) ?_
  · refine Gives.amend bytes held_directory ?_
    rw [Memory.content_write, if_neg young.symm, bind_of_ok _ denotes.ofBytes, bind_of_ok _ (halving.doubled full)]
    rfl
  · refine (Memory.write_self _ ?_).symm
    rw [Memory.content_write, if_neg young.symm, halving.same less]
  refine Gives.step (Gives.lift (powerOfTwo_eq shallow)) ?_
  refine Gives.step (Gives.view ⟨fresh⟩ mine ?_) ?_
  · rw [Memory.content_write, if_neg young, Memory.content_write, if_pos rfl]
    exact halving.blank
  refine Gives.step (Gives.edit filled kept held_bucket ?_) ?_
  · rw [Memory.content_write, if_neg apart, Memory.content_write, if_neg other.symm, bind_of_ok _ holds.ofBytes,
      bind_of_ok _ halving.divided]
    rfl
  refine Gives.step (Gives.amend filled mine rfl) ?_
  refine Gives.step (Gives.amend linked held_directory ?_) (Gives.pure _)
  rw [Memory.content_write, if_neg young.symm, Memory.content_write, if_neg apart.symm, Memory.content_write,
    if_pos rfl, bind_of_ok _ halving.deep.denotes.ofBytes]
  exact bind_of_ok _ halving.listed

end Halving

/-! ### Whole splits -/

/-- What a split leaves behind, for a bucket that uses so many bits. -/
structure Divided (table : Table K V) (leases : List Lease) (directory bucket image : PageId) (state : DirectoryState)
    (depth limit : Nat) (entries : List (K × V)) (pool later : Pool σ) : Prop where
  apart : image ≠ directory ∧ image ≠ bucket
  kept : Bucket.Holds (later.visible bucket) limit
    (entries.filter fun entry => !(table.hash entry.1).toNat.testBit depth)
  moved : Bucket.Holds (later.visible image) limit
    (entries.filter fun entry => (table.hash entry.1).toNat.testBit depth)
  routes : ∀ key, ∃ page reach, routeIn key (pool.visible directory) = .ok (page, reach) ∧
    (page = bucket → reach = depth) ∧
    routeIn key (later.visible directory) = .ok (
      if page = bucket then (if key.toNat.testBit depth then image else bucket, depth + 1) else (page, reach))
  linked : ∃ last, Directory.Denotes (later.visible directory) last ∧ last.maxDepth = state.maxDepth ∧
    last.globalDepth = (if depth = state.globalDepth then state.globalDepth + 1 else state.globalDepth) ∧
    (¬ state.Mentions image → last.Formed)
  others : ∀ page, page ≠ directory → page ≠ bucket → page ≠ image → Pool.Firm (owedBy leases) pool page →
    later.visible page = pool.visible page
  pins : ∀ page, later.pinsOf page = pool.pinsOf page

/-- How a split ends: it is refused where the directory can grow no further, fails where the pool makes no page, and
is done otherwise. -/
inductive Divides (table : Table K V) (leases : List Lease) (directory bucket : PageId) (state : DirectoryState)
    (slot limit : Nat) (entries : List (K × V)) (pool : Pool σ) : Pool.Result σ Bool → Prop where
  | refused (deepest : Deepest state slot) :
      Divides table leases directory bucket state slot limit entries pool (.ok false pool)
  | failed {failure : Failure} {later : Pool σ} (room : ¬ Deepest state slot)
      (refused : Pool.new pool = .error failure later)
      (both : later.visible directory = pool.visible directory ∧ later.visible bucket = pool.visible bucket)
      (others : Pool.Lasting (owedBy leases) (owedBy leases) pool later)
      (pins : ∀ page, later.pinsOf page = pool.pinsOf page) :
      Divides table leases directory bucket state slot limit entries pool (.error failure later)
  | divided {image : PageId} {id : FrameId} {middle later : Pool σ} (room : ¬ Deepest state slot)
      (made : Pool.new pool = .ok (image, id) middle)
      (divided : Divided table leases directory bucket image state (state.depth slot) limit entries pool later) :
      Divides table leases directory bucket state slot limit entries pool (.ok true later)

variable {pins : Multiset PageId} {pool : Pool σ}

theorem routes_divided {last : DirectoryState} {linked : Page} (deep : Deepened state slot bytes last)
    (formed : state.Formed) (small : slot < state.size)
    (denotes : Directory.Denotes linked (last.divide (state.bucket slot) image (state.depth slot))) (key : UInt32) :
    (state.home key = state.bucket slot → state.reach key = state.depth slot) ∧ routeIn key linked = .ok (
      if state.home key = state.bucket slot then
        (if key.toNat.testBit (state.depth slot) then image else state.bucket slot, state.depth slot + 1)
      else (state.home key, state.reach key)) := by
  refine ⟨formed.depth_eq _ (state.slot_lt key) slot small, ?_⟩
  rw [routeIn_ok denotes deep.formed.shallow_max, home_divide (deep.depth ▸ deep.less), reach_divide, deep.home,
    deep.reach]
  by_cases here : state.home key = state.bucket slot <;> simp [here]

theorem Halving.leaves {content : PageId → Page} {fresh kept filled linked : Page} {last : DirectoryState}
    {later : Pool σ}
    (halving :
      Halving table content directory bucket image state slot limit entries fresh bytes kept filled linked last)
    (denotes : Directory.Denotes (pool.visible directory) state) (formed : state.Formed) (small : slot < state.size)
    (here : state.bucket slot = bucket) (real : bucket.isValid = true) (valid : image.isValid = true)
    (apart : bucket ≠ directory) (young : image ≠ directory) (other : image ≠ bucket)
    (shows : ∀ page, page = directory ∨ page = bucket ∨ page = image ∨ Pool.Firm (owedBy leases) pool page →
      later.visible page = if page = directory then linked else if page = image then filled
        else if page = bucket then kept else pool.visible page)
    (pins : ∀ page, later.pinsOf page = pool.pinsOf page) :
    Divided table leases directory bucket image state (state.depth slot) limit entries pool later := by
  subst here
  have at_directory : later.visible directory = linked := (shows directory (.inl rfl)).trans (if_pos rfl)
  refine ⟨⟨young, other⟩, ?_, ?_, fun key => ?_, ?_, fun page home old new firm => ?_, pins⟩
  · rw [shows _ (.inr (.inl rfl)), if_neg apart, if_neg other.symm, if_pos rfl]
    exact halving.kept
  · rw [shows _ (.inr (.inr (.inl rfl))), if_neg young, if_pos rfl]
    exact halving.moved
  · rw [at_directory]
    exact ⟨_, _, routeIn_ok denotes formed.shallow_max key, routes_divided halving.deep formed small halving.linked key⟩
  · rw [at_directory]
    exact ⟨_, halving.linked, halving.deep.maxDepth, halving.deep.global_eq formed small,
      halving.deep.formed_divide valid real⟩
  · rw [shows page (.inr (.inr (.inr firm))), if_neg home, if_neg new, if_neg old]

omit [FixedWidth K] [FixedWidth V] [BackingStore σ] [PageKeeper σ] in
theorem sure_halved (held_directory : directory ∈ memory.pins) (held_bucket : bucket ∈ memory.pins)
    {fresh kept filled linked : Page} (written : filled ≠ Page.zero) (young : image ≠ directory)
    (unmade : memory.marks = []) {page : PageId}
    (known : page = directory ∨ page = bucket ∨ page = image ∨ memory.firm page) :
    Memory.Sure { halved memory.grow directory bucket image fresh bytes kept filled linked with pins := memory.pins }
      page := by
  rcases known with rfl | rfl | rfl | firm
  · exact .inr (.inl held_directory)
  · exact .inr (.inl held_bucket)
  · refine .inr (.inr ?_)
    change (halved memory.grow directory bucket page fresh bytes kept filled linked).content page ≠ Page.zero
    rwa [content_halved, if_neg young, if_pos rfl]
  · refine .inl ⟨firm, ?_⟩
    change page ∉ droppedIn (memory.marks ++ [.made ⟨memory.next⟩])
    simp [unmade, droppedIn, Mark.dropped?]

/-- What a split does with a directory and a bucket that its caller has pinned. The bucket need not be full. -/
theorem divideBucket_effect [RoundTrips K] [RoundTrips V] (table : Table K V)
    (sound : Pool.Sound leases (pins.count ·) pool) (held_directory : directory ∈ pins) (held_bucket : bucket ∈ pins)
    (denotes : Directory.Denotes (pool.visible directory) state) (formed : state.Formed) (small : slot < state.size)
    (here : state.bucket slot = bucket) (holds : Bucket.Holds (pool.visible bucket) limit entries) :
    Divides table leases directory bucket state slot limit entries pool
      (table.divideBucket directory slot bucket pool) := by
  have apart : bucket ≠ directory := by
    rintro rfl
    cases holds.tagged.unique denotes.tagged
  obtain ⟨others, rfl⟩ := Multiset.exists_cons_of_mem held_directory
  obtain ⟨rest, rfl⟩ := Multiset.exists_cons_of_mem ((Multiset.mem_cons.mp held_bucket).resolve_left apart)
  -- All other pins are put down as leases, so that the split has only those of the two pages.
  have parted : Pool.Sound leases ((rest + {directory, bucket}).count ·) pool := by
    rwa [Multiset.insert_eq_cons, Multiset.add_cons, Multiset.add_comm, Multiset.singleton_add]
  obtain ⟨more, owing, lent⟩ := parted.lend rest
  have coherent := sound.coherent
  let memory : Memory := pool.outset more {directory, bucket}
  have models : Models more False memory pool := lent.models (by simp [denotes.written, holds.written]) False.elim
  have kept := coherent.kept
  obtain ⟨_, _, _, seat_directory, _⟩ := models.seat (by simp [memory, Pool.outset] : directory ∈ memory.pins)
  obtain ⟨_, _, _, seat_bucket, _⟩ := models.seat (by simp [memory, Pool.outset] : bucket ∈ memory.pins)
  have real := kept.isValid seat_bucket.resident
  have held_directory : directory ∈ memory.pins := by simp [memory, Pool.outset]
  have held_bucket : bucket ∈ memory.pins := by simp [memory, Pool.outset]
  have depths : view directory (depthsAt slot) pool = .ok (state.depth slot, state.globalDepth, state.maxDepth) pool :=
    (models.view_eq held_directory _).trans (Pool.lift_ok (depthsAt_ok denotes formed small))
  rw [divideBucket_eq, Pool.bind_ok depths]
  dsimp only
  by_cases room : state.depth slot = state.globalDepth ∧ state.maxDepth ≤ state.globalDepth
  · rw [if_pos room]
    exact .refused room
  have limited : view bucket (limitOf K V) pool = .ok limit pool :=
    (models.view_eq held_bucket _).trans (Pool.lift_ok (limitOf_ok holds))
  rw [if_neg room, Pool.bind_ok limited]
  -- Only the new page may be refused; nothing was written before there is one.
  have made := kept.new
  generalize run : Pool.new pool = result at made
  match result, made with
  | .error failure later, made =>
    have lasting := made.lasting_error coherent
    rw [Pool.bind_error run]
    exact .failed room run ⟨(lasting directory (coherent.firm denotes.written)).2,
      (lasting bucket (coherent.firm holds.written)).2⟩ lasting (made.pinsOf_error kept)
  | .ok (image, id) middle, made =>
    rw [Pool.bind_ok run]
    obtain ⟨rfl, valid, less, grown⟩ : image = ⟨pool.next⟩ ∧ image.isValid = true ∧ pool.next < pool.next + 1 ∧
      Models more False memory.grow middle := models.made made False.elim
    have young : directory ≠ ⟨pool.next⟩ := ne_of_issued (kept.numbered seat_directory.resident)
    have other : bucket ≠ ⟨pool.next⟩ := ne_of_issued (kept.numbered seat_bucket.resident)
    obtain ⟨fresh, bytes, stays, filled, linked, last, halving⟩ :=
      exists_halving denotes formed small here real holds room table ⟨pool.next⟩
    have fills : Gives more (table.fillHalves directory bucket _ _ limit _ : Pool.Action σ Bool) memory.grow true _ :=
      halving.gives rfl denotes formed small holds apart young.symm other.symm rfl held_directory held_bucket
    obtain ⟨later, done, -, ends, -⟩ := fills False middle grown
    rw [done]
    refine .divided room run (halving.leaves denotes formed small here real valid apart young.symm other.symm
      (fun page known => ?_) fun page => ?_)
    · rw [← owing] at known
      exact (ends.sure page (sure_halved held_directory held_bucket halving.moved.written young.symm rfl known)).2.trans
        (content_halved _ _ _ _ page _ _ _ _ _)
    · exact (ends.sound.pins page).trans (lent.pins page).symm

theorem exists_stocked (first second third : Page) (written : third ≠ Page.zero) : ∃ pool : Pool RamStore,
    pool.visible ⟨0⟩ = first ∧ pool.visible ⟨1⟩ = second ∧ pool.visible ⟨2⟩ = third ∧ pool.next = 3 ∧
      Pool.Sound [] (({⟨1⟩, ⟨0⟩} : Multiset PageId).count ·) pool := by
  obtain ⟨pool, made⟩ : ∃ pool : Pool RamStore, Pool.create 3 2 RamStore.empty = .ok pool := ⟨_, rfl⟩
  have sound := Pool.created_sound RamStore.intact_empty made
  obtain ⟨eased, begins⟩ : Pool.Eased [] pool ∧ pool.next = 0 := by
    obtain ⟨next, replacer, bound, -, rfl⟩ := Pool.create_eq made
    cases bound
    exact ⟨⟨RamStore.reliable rfl rfl, by simp [Pool.lent], fun _ => (by decide : 0 + 1 < wordBound)⟩, rfl⟩
  let empty : Memory := pool.outset [] 0
  have models : Models [] True empty pool :=
    Pool.Sound.models (by simpa using sound) (fun page pinned => absurd pinned (Multiset.notMem_zero page))
      fun _ => eased
  have starts : pool.pages.next = 0 := begins
  have numbered : empty.next = 0 := begins
  have room : ∀ next : UInt32, next < 3 → next.toNat + 1 < wordBound := fun next less => by
    have small : next.toNat < 3 := UInt32.lt_iff_toNat_lt.mp less
    simp only [wordBound]
    omega
  have stocks : Pool.Runs [] ⟨True, False⟩ (Pool.new >>= fun _ => Pool.new >>= fun _ => Pool.new >>= fun _ =>
      amend ⟨0⟩ (fun _ => .ok first) >>= fun _ => amend ⟨1⟩ (fun _ => .ok second) >>= fun _ =>
      amend ⟨2⟩ (fun _ => .ok third) >>= fun _ => Pool.unpin ⟨2⟩ false : Pool.Action RamStore Bool) empty
      (fun _ next => next = { ((empty.grow.grow.grow.write ⟨0⟩ first).write ⟨1⟩ second).write ⟨2⟩ third with
        pins := {⟨1⟩, ⟨0⟩} }) (fun _ => True) := by
    refine (Pool.Runs.new trivial (by simp [empty, Pool.outset]) (.inr (room _ (by simp [numbered])))).bind
      fun _ next made => ?_
    obtain ⟨-, -, -, rfl⟩ := made
    refine (Pool.Runs.new trivial (by simp [empty, Pool.outset]) (.inr (room _ (by simp [numbered])))).bind
      fun _ next made => ?_
    obtain ⟨-, -, -, rfl⟩ := made
    refine (Pool.Runs.new trivial (by simp [empty, Pool.outset]) (.inr (room _ (by simp [numbered])))).bind
      fun _ next made => ?_
    obtain ⟨-, -, -, rfl⟩ := made
    refine Pool.Runs.step (Pool.Runs.amend first (by simp [numbered]) rfl) ?_
    refine Pool.Runs.step (Pool.Runs.amend second (by simp [numbered]) rfl) ?_
    refine Pool.Runs.step (Pool.Runs.amend third (by simp [numbered]) rfl) ?_
    have held : (((empty.grow.grow.grow.write ⟨0⟩ first).write ⟨1⟩ second).write ⟨2⟩ third).pins =
        ⟨2⟩ ::ₘ {⟨1⟩, ⟨0⟩} := by
      simp [starts, empty, Pool.outset]
    exact (Pool.Runs.unpin held).finish rfl
  obtain ⟨_, later, _, _, ends, rfl⟩ := stocks.total models False.elim
  refine ⟨later, (ends.sure ⟨0⟩ (.inr (.inl ?_))).2.trans ?_, (ends.sure ⟨1⟩ (.inr (.inl ?_))).2.trans ?_,
    (ends.sure ⟨2⟩ (.inr (.inr ?_))).2.trans ?_, ends.next.trans ?_, ends.sound⟩ <;> simp [written, numbered]

theorem exists_sole (bucket : PageId) :
    ∃ bytes, Directory.Denotes bytes (((Directory.freshState 2).setBucket 0 bucket).setDepth 0 0) := by
  have limited : 2 ≤ maxDirectoryDepth := by decide
  have shallow := (formed_fresh limited).shallow_max
  have single : 0 < (Directory.freshState 2).size := Nat.two_pow_pos _
  obtain ⟨_, -, blank⟩ := Directory.format_ok Page.zero limited
  obtain ⟨_, -, linked⟩ := blank.setBucket shallow single bucket
  obtain ⟨bytes, -, denotes⟩ := linked.setLocalDepth shallow limited single (Nat.zero_le _)
  exact ⟨bytes, denotes⟩

/-- The only bucket of a directory is full, and is split on the lowest bit. -/
theorem divideBucket_effect_full_bucket :
    ∃ (table : Table UInt32 UInt32) (pool : Pool RamStore) (state : DirectoryState),
      Directory.Denotes (pool.visible ⟨0⟩) state ∧ state.Formed ∧ ¬ Deepest state 0 ∧
      Bucket.Holds (pool.visible ⟨1⟩) 2 [((0 : UInt32), (10 : UInt32)), (1, 11)] ∧
      Divides table [] ⟨0⟩ ⟨1⟩ state 0 2 [(0, 10), (1, 11)] pool (table.divideBucket ⟨0⟩ 0 ⟨1⟩ pool) := by
  have fresh := formed_fresh (by decide : 2 ≤ maxDirectoryDepth)
  have single : 0 < (Directory.freshState 2).size := Nat.two_pow_pos _
  have formed := fresh.first rfl (rfl : (⟨1⟩ : PageId).isValid = true)
  obtain ⟨directory, denotes⟩ := exists_sole ⟨1⟩
  obtain ⟨_, -, empty⟩ := @Bucket.format_ok UInt32 UInt32 _ _ Page.zero 2 (by decide) (by decide)
  obtain ⟨_, -, half⟩ := empty.insert (by decide) 0 10
  obtain ⟨bucket, -, holds⟩ := half.insert (by decide) 1 11
  obtain ⟨pool, rfl, rfl, -, -, sound⟩ := exists_stocked directory bucket bucket holds.written
  exact ⟨⟨"t", Ord.compare, fun key => key, ⟨0⟩, 2, 2⟩, pool, _, denotes, formed,
    fun deepest => absurd deepest.2 (by decide : ¬ 2 ≤ 0), holds,
    divideBucket_effect _ sound (by simp) (by simp) denotes formed single rfl holds⟩

end Table

end PagedIndex
