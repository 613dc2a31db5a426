import Mathlib
import PagedIndex.Proofs.Table.Dividing

/-!
# Inserting keeps the entries

However far an insertion gets, the directory houses what it housed before, and the new entry behind it if the
answer is `true`. The answer is `false` only where as many entries as a bucket may hold agree with the new one
in all the bits that the directory could ever use.
-/

namespace PagedIndex.Table

open DirectoryState
open Pool (Runs keeping holding entrusting view edit amend)

variable {K V σ : Type} [FixedWidth K] [FixedWidth V] [BackingStore σ] [PageKeeper σ]
  {leases : List Lease} {terms : Pool.Terms} {table : Table K V} {memory later : Memory} {directory bucket : PageId}
  {state : DirectoryState} {limit slot : Nat} {entries : List (K × V)} {key : K} {value : V}

/-- The limits of a table are such that its pages can be formatted. -/
structure Configured (table : Table K V) : Prop where
  depth : table.directoryDepth ≤ maxDirectoryDepth
  positive : 0 < table.bucketSize
  fits : table.bucketSize ≤ Bucket.capacity K V

/-- How many entries each bucket of a directory may hold. -/
def most (table : Table K V) (state : DirectoryState) (limit : Nat) : Nat :=
  if (state.bucket 0).isValid then limit else table.bucketSize

/-- The pins are as they were, and the directory houses these entries. -/
structure Settled (hash : K → UInt32) (directory : PageId) (entries : List (K × V)) (memory later : Memory) :
    Prop where
  pins : later.pins = memory.pins
  tended : Tended hash directory memory.toAnnals later.toAnnals entries

theorem Houses.settled {hash : K → UInt32} (houses : Houses hash memory.toPages directory state limit entries) :
    Settled hash directory entries memory memory :=
  ⟨rfl, houses.tended⟩

theorem Settled.unpin {hash : K → UInt32} {page : PageId}
    (settled : Settled hash directory entries (memory.pin page) later) :
    later.pins = page ::ₘ memory.pins ∧
      Settled hash directory entries memory { later with pins := memory.pins } :=
  ⟨settled.pins, rfl, settled.tended⟩

theorem Settled.trans {hash : K → UInt32} {list : List (K × V)} {middle : Memory}
    (first : Settled hash directory list memory middle) (second : Settled hash directory entries middle later) :
    Settled hash directory entries memory later :=
  ⟨second.pins.trans first.pins, first.tended.tends.tended second.tended⟩

/-- The directory has turned into one that houses these entries, in a way that is known. -/
structure Turned (hash : K → UInt32) (directory : PageId) (entries : List (K × V))
    (turn : DirectoryState → Nat → Prop) (memory later : Memory) : Prop where
  pins : later.pins = memory.pins
  houses : ∃ last most, Houses hash later.toPages directory last most entries ∧ turn last most
  tends : Tends directory memory.toAnnals later.toAnnals

theorem Turned.settled {hash : K → UInt32} {turn : DirectoryState → Nat → Prop}
    (turned : Turned hash directory entries turn memory later) : Settled hash directory entries memory later := by
  obtain ⟨last, most, houses, _⟩ := turned.houses
  exact ⟨turned.pins, ⟨_, _, houses⟩, turned.tends⟩

theorem Turned.mono {hash : K → UInt32} {turn other : DirectoryState → Nat → Prop}
    (turned : Turned hash directory entries turn memory later)
    (better : ∀ last most, turn last most → other last most) : Turned hash directory entries other memory later := by
  obtain ⟨last, most, houses, known⟩ := turned.houses
  exact ⟨turned.pins, ⟨_, _, houses, better _ _ known⟩, turned.tends⟩

variable [RoundTrips K] [RoundTrips V]

theorem insertFirst_runs (configured : table.Configured)
    (houses : Houses table.hash memory.toPages directory state limit entries)
    (vacant : (state.bucket 0).isValid = false) (pins : memory.pins = {directory})
    (room : terms.Room memory 1) :
    Runs leases terms (table.insertFirst directory 0 key value : Pool.Action σ Bool) memory
      (fun inserted later => inserted = true ∧ later.next.toNat = memory.next.toNat + 1 ∧
        Turned table.hash directory (entries ++ [(key, value)]) (fun last most =>
          last = (state.setBucket 0 ⟨memory.next⟩).setDepth 0 0 ∧ most = table.bucketSize) memory later)
      (Settled table.hash directory entries memory) := by
  have nowhere : (state.home 0).isValid = false := by
    rw [home, UInt32.toNat_zero, Nat.zero_mod]
    exact vacant
  obtain ⟨_, _, flat, nothing⟩ := houses.vacant nowhere
  have pinned : directory ∈ memory.pins := by simp [pins]
  refine (Runs.new houses.settled (by simp [pins]) room).bind fun made grown known => ?_
  obtain ⟨bucket, id⟩ := made
  obtain ⟨rfl, valid, less, rfl⟩ := known
  dsimp only
  refine Runs.keeping memory.pins memory.pins ?_
  have young : directory ≠ ⟨memory.next⟩ := ne_of_issued houses.issued
  obtain ⟨fresh, formatted, blank⟩ :=
    Bucket.format_ok (K := K) (V := V) (memory.content ⟨memory.next⟩) configured.positive configured.fits
  obtain ⟨filled, inserted, holds⟩ := blank.insert configured.positive key value
  have small : 0 < state.size := state.size_pos
  obtain ⟨linked, link, denotes⟩ := houses.denotes.setBucket houses.shallow small ⟨memory.next⟩
  obtain ⟨flattened, flatten, denotes⟩ :=
    denotes.setLocalDepth houses.shallow houses.shelves.formed.limited small (Nat.zero_le _)
  -- The bucket is in order before the directory lists it.
  refine Runs.step (Runs.edit true filled (Multiset.mem_cons_self _ _) ?_) ?_
  · rw [Memory.content_grow, bind_of_ok _ formatted, bind_of_ok _ inserted]
    rfl
  refine Runs.step (Runs.amend flattened (Multiset.mem_cons_of_mem pinned) ?_) (Runs.pure ?_)
  · rw [Memory.content_write, if_neg young, Memory.content_grow, bind_of_ok _ houses.denotes.ofBytes,
      bind_of_ok _ link]
    change (Directory.globalDepth ⟨memory.content directory⟩ >>= fun depth => _) = _
    rw [bind_of_ok _ houses.denotes.globalDepth, flat, bind_of_ok _ flatten]
    rfl
  let stocked : Memory := memory.grow.write ⟨memory.next⟩ filled
  have shelves : Shelves table.hash stocked.content stocked.next ((state.setBucket 0 ⟨memory.next⟩).setDepth 0 0)
      table.bucketSize [(key, value)] :=
    houses.shelves.first vacant valid less (by simpa [stocked] using holds)
  have tagged : PageKind.directory.Tags (stocked.content directory) := by
    simpa [stocked, young] using houses.denotes.tagged
  have ends : Houses table.hash (stocked.write directory flattened).toPages directory _ table.bucketSize
      [(key, value)] :=
    shelves.linked tagged (UInt32.lt_trans houses.issued less) denotes
  have tends : Tends directory memory.toAnnals (stocked.write directory flattened).toAnnals := by
    refine houses.tends_made ends rfl less rfl (fun page old apart _ => ?_)
      (houses.shelves.formed.mentions_first_iff vacant valid)
    simp [stocked, apart, ne_of_issued old]
  refine ⟨rfl, rfl, Pool.toNat_succ_of_lt less, ?_⟩
  rw [nothing]
  exact ⟨rfl, ⟨_, _, ends, rfl, rfl⟩, tends⟩

/-! ### Splitting -/

omit [RoundTrips K] [RoundTrips V] in
theorem Deepened.shelves {hash : K → UInt32} {content : PageId → Page} {next : UInt32} {bytes : Page}
    {last : DirectoryState} (deep : Deepened state slot bytes last)
    (shelves : Shelves hash content next state limit entries) : Shelves hash content next last limit entries :=
  shelves.of_home deep.formed deep.home fun page => (deep.mentions page).mp

omit [RoundTrips K] [RoundTrips V] in
theorem Deepened.deepens {key : UInt32} {bytes : Page} {last : DirectoryState}
    (deep : Deepened state (key.toNat % state.size) bytes last) (formed : state.Formed)
    (image : PageId) : state.Deepens key (last.divide (state.home key) image (state.reach key)) where
  maxDepth := deep.maxDepth
  globalDepth := deep.globalDepth
  depth slot small := by
    have little : slot < last.size := small
    have within := formed.reach_le_global key
    rw [(divide_slot _ image _ little).2, (deep.slots slot little).1, (deep.slots slot little).2]
    have here : state.bucket (slot % state.size) = state.home key ↔
        slot % 2 ^ state.reach key = key.toNat % 2 ^ state.reach key := by
      rw [eq_comm, DirectoryState.home, formed.share_iff _ (state.slot_lt key) _ (Nat.mod_lt _ state.size_pos),
        ← DirectoryState.reach, mod_size_mod within, mod_size_mod within, eq_comm]
    simp only [here]

omit [RoundTrips K] [RoundTrips V] in
theorem Houses.divided {hash : K → UInt32} {pages after : Annals}
    (houses : Houses hash pages.toPages directory state limit entries) {bytes : Page} {last : DirectoryState}
    (deep : Deepened state slot bytes last)
    (mentioned : state.Mentions (state.bucket slot)) (valid : (⟨pages.next⟩ : PageId).isValid = true)
    (next : after.next = pages.next + 1) (less : pages.next < after.next)
    (marks : after.marks = pages.marks ++ [.made ⟨pages.next⟩])
    (linked : Directory.Denotes (after.content directory)
      (last.divide (state.bucket slot) ⟨pages.next⟩ (state.depth slot)))
    (kept : Bucket.Holds (after.content (state.bucket slot)) limit
      ((routed hash state.home (state.bucket slot) entries).filter fun entry =>
        !(hash entry.1).toNat.testBit (state.depth slot)))
    (moved : Bucket.Holds (after.content ⟨pages.next⟩) limit
      ((routed hash state.home (state.bucket slot) entries).filter fun entry =>
        (hash entry.1).toNat.testBit (state.depth slot)))
    (others : ∀ page, page ≠ directory → page ≠ state.bucket slot → page ≠ ⟨pages.next⟩ →
      after.content page = pages.content page) :
    Houses hash after.toPages directory (last.divide (state.bucket slot) ⟨pages.next⟩ (state.depth slot)) limit
        entries ∧
      Tends directory pages after := by
  have fresh : ∀ page, last.Mentions page → page ≠ ⟨pages.next⟩ := fun page there =>
    ne_of_issued (houses.shelves.issued page ((deep.mentions page).mp there))
  have there : last.Mentions (last.bucket slot) := by
    rw [deep.bucket]
    exact ⟨mentioned.1, slot, deep.small, deep.bucket⟩
  have lasting := (deep.shelves houses.shelves).congr (fun _ _ => rfl) (UInt32.le_of_lt less)
  have same_routed : ∀ page, routed hash last.home page entries = routed hash state.home page entries := fun page => by
    simp only [routed, deep.home]
  have shelves : Shelves hash after.content after.next
      (last.divide (last.bucket slot) ⟨pages.next⟩ (last.depth slot)) limit entries := by
    refine lasting.divide deep.small deep.less valid less fresh there ?_ ?_ fun page old other => ?_
    · rwa [deep.bucket, deep.depth, same_routed]
    · rwa [deep.bucket, deep.depth, same_routed]
    · rw [deep.bucket] at other
      exact others page ((deep.shelves houses.shelves).apart houses.denotes.tagged old) other (fresh page old)
  have mentions := deep.formed.mentions_divide_iff deep.small deep.less valid
  rw [deep.bucket, deep.depth] at shelves mentions
  have ends : Houses hash after.toPages directory _ limit entries :=
    ⟨linked, UInt32.lt_trans houses.issued less, shelves⟩
  refine ⟨ends, houses.tends_made ends next less marks (fun page old apart out => ?_) fun page => ?_⟩
  · refine others page apart ?_ (ne_of_issued old)
    rintro rfl
    exact out mentioned
  · rw [mentions, deep.mentions]

/-- A pass has split the bucket of a hash: it reaches one bit further now, and the entries are where they were. -/
structure Parted (hash : K → UInt32) (directory : PageId) (state : DirectoryState) (limit : Nat)
    (entries : List (K × V)) (key : UInt32) (memory later : Memory) : Prop where
  pins : later.pins = memory.pins
  next : later.next.toNat = memory.next.toNat + 1
  first : (state.bucket 0).isValid = true
  houses : ∃ last, Houses hash later.toPages directory last limit entries ∧ state.Deepens key last
  tends : Tends directory memory.toAnnals later.toAnnals

omit [RoundTrips K] [RoundTrips V] in
theorem Houses.parted {key : UInt32} (houses : Houses table.hash memory.toPages directory state limit entries)
    (mentioned : state.Mentions (state.home key)) (valid : (⟨memory.next⟩ : PageId).isValid = true)
    (less : memory.next < memory.next + 1) {fresh bytes kept filled linked : Page} {last : DirectoryState}
    (halving : Halving table memory.content directory (state.home key) ⟨memory.next⟩ state (key.toNat % state.size)
      limit (routed table.hash state.home (state.home key) entries) fresh bytes kept filled linked last) :
    Parted table.hash directory state limit entries key memory
      { halved memory.grow directory (state.home key) ⟨memory.next⟩ fresh bytes kept filled linked with
        pins := memory.pins } := by
  have young : directory ≠ ⟨memory.next⟩ := ne_of_issued houses.issued
  have apart : state.home key ≠ directory := houses.apart mentioned
  have image_apart : state.home key ≠ ⟨memory.next⟩ := ne_of_issued (houses.shelves.issued _ mentioned)
  let after := halved memory.grow directory (state.home key) ⟨memory.next⟩ fresh bytes kept filled linked
  have shows := fun page =>
    content_halved memory.grow directory (state.home key) ⟨memory.next⟩ page fresh bytes kept filled linked
  have at_directory : after.content directory = linked := by simp [after, shows]
  have at_bucket : after.content (state.home key) = kept := by simp [after, shows, apart, image_apart]
  have at_image : after.content ⟨memory.next⟩ = filled := by simp [after, shows, young.symm]
  obtain ⟨ends, tends⟩ : Houses table.hash after.toPages directory _ limit entries ∧
      Tends directory memory.toAnnals after.toAnnals :=
    houses.divided halving.deep mentioned valid rfl less rfl (at_directory.symm ▸ halving.linked)
      (at_bucket.symm ▸ halving.kept) (at_image.symm ▸ halving.moved) fun page at_home at_bucket at_image => by
        change page ≠ state.home key at at_bucket
        simp [after, shows, at_home, at_bucket, at_image]
  have first := houses.shelves.formed.mentions_valid mentioned 0 state.size_pos
  exact ⟨rfl, Pool.toNat_succ_of_lt less, first, ⟨_, ends, halving.deep.deepens houses.shelves.formed _⟩, tends⟩

theorem divideBucket_runs {hash : UInt32} (houses : Houses table.hash memory.toPages directory state limit entries)
    (mentioned : state.Mentions (state.home hash)) (pins : memory.pins = {state.home hash, directory})
    (room : terms.Room memory 1) :
    Runs leases terms (table.divideBucket directory (hash.toNat % state.size) (state.home hash) : Pool.Action σ Bool)
      memory
      (fun divided later =>
        if divided then Parted table.hash directory state limit entries hash memory later
        else later = memory ∧ state.reach hash = state.maxDepth)
      (Settled table.hash directory entries memory) := by
  have formed := houses.shelves.formed
  have small := state.slot_lt hash
  have holds := houses.shelves.holds _ mentioned
  have pinned : directory ∈ memory.pins := by simp [pins]
  have held : state.home hash ∈ memory.pins := by simp [pins]
  rw [divideBucket_eq]
  refine Runs.step (Runs.view _ pinned (depthsAt_ok houses.denotes formed small)) ?_
  dsimp only
  by_cases full : state.reach hash = state.globalDepth ∧ state.maxDepth ≤ state.globalDepth
  · rw [← DirectoryState.reach, if_pos full]
    have shallow := formed.shallow
    exact Runs.pure ⟨rfl, by omega⟩
  rw [← DirectoryState.reach, if_neg full]
  refine Runs.step (Runs.view limit held (limitOf_ok holds)) ?_
  -- The last step that may fail; nothing was written before it.
  refine (Runs.new houses.settled (by simp [pins]) room).bind fun made grown known => ?_
  obtain ⟨image, id⟩ := made
  obtain ⟨rfl, valid, less, rfl⟩ := known
  have young : directory ≠ ⟨memory.next⟩ := ne_of_issued houses.issued
  have image_apart : state.home hash ≠ ⟨memory.next⟩ := ne_of_issued (houses.shelves.issued _ mentioned)
  obtain ⟨fresh, bytes, kept, filled, linked, last, halving⟩ := exists_halving houses.denotes formed small rfl
    mentioned.1 holds full table ⟨memory.next⟩
  have fills : Pool.Gives leases (table.fillHalves directory (state.home hash) _ _ limit _ : Pool.Action σ Bool)
      memory.grow true _ :=
    halving.gives rfl houses.denotes formed small holds (houses.apart mentioned) young.symm image_apart.symm rfl pinned
      held
  exact (fills.runs (.of_same rfl rfl)).finish (houses.parted mentioned valid less halving)

/-! ### Whole insertions -/

/-- What a pass leaves behind that comes to a decision. -/
structure Decided (table : Table K V) (directory : PageId) (state : DirectoryState) (limit : Nat)
    (entries : List (K × V)) (key : K) (value : V) (memory : Memory) (inserted : Bool) (later : Memory) : Prop where
  turned : Turned table.hash directory (if inserted then entries ++ [(key, value)] else entries) (fun last most =>
    Grows table.hash (table.most state limit) (table.hash key) entries state inserted last ∧
      table.most last most = table.most state limit) memory later
  made : later.next.toNat + state.reach (table.hash key) ≤ memory.next.toNat + state.maxDepth + 1
  full_iff : inserted = false ↔
    crowd table.hash state.maxDepth (table.hash key) entries = table.most state limit

omit [RoundTrips K] [RoundTrips V] in
theorem Houses.refused (houses : Houses table.hash memory.toPages directory state limit entries)
    (most : table.most state limit = limit)
    (filled : crowd table.hash (state.reach (table.hash key)) (table.hash key) entries = limit)
    (deepest : state.reach (table.hash key) = state.maxDepth) :
    Decided table directory state limit entries key value memory false memory := by
  refine ⟨⟨rfl, ⟨_, _, houses, .refused deepest (by rw [most, filled]), rfl⟩, .refl _ memory.toAnnals⟩, ?_,
    iff_of_true rfl ?_⟩
  · omega
  · rw [most, ← deepest, filled]

omit [RoundTrips K] [RoundTrips V] in
theorem Houses.put (houses : Houses table.hash memory.toPages directory state limit entries)
    (mentioned : state.Mentions (state.home (table.hash key))) (most : table.most state limit = limit)
    (roomy : (routed table.hash state.home (state.home (table.hash key)) entries).length < limit) {filled : Page}
    (grown : Bucket.Holds filled limit
      (routed table.hash state.home (state.home (table.hash key)) entries ++ [(key, value)])) :
    Decided table directory state limit entries key value memory true
      (memory.write (state.home (table.hash key)) filled) := by
  have formed := houses.shelves.formed
  have reach_le := formed.reach_le (table.hash key)
  rw [← routed_append_home] at grown
  obtain ⟨ends, tends⟩ := houses.rewritten mentioned grown fun other differ => routed_append_other differ value
  refine ⟨⟨rfl, ⟨_, _, ends, .put ?_, rfl⟩, tends⟩, ?_, iff_of_false Bool.noConfusion ?_⟩
  · rwa [most, crowd_reach formed]
  · change memory.next.toNat + _ ≤ _
    omega
  · rw [most]
    exact Nat.ne_of_lt (Nat.lt_of_le_of_lt (crowd_le formed reach_le entries) roomy)

omit [RoundTrips K] [RoundTrips V] in
/-- The first bucket of a directory takes any entry. -/
theorem Houses.decided_first (houses : Houses table.hash memory.toPages directory state limit entries)
    (nowhere : (state.home (table.hash key)).isValid = false) (positive : 0 < table.bucketSize)
    (one : later.next.toNat = memory.next.toNat + 1)
    (turned : Turned table.hash directory (entries ++ [(key, value)]) (fun last most =>
      last = (state.setBucket 0 ⟨memory.next⟩).setDepth 0 0 ∧ most = table.bucketSize) memory later) :
    Decided table directory state limit entries key value memory true later := by
  obtain ⟨vacant, _, flat, nothing⟩ := houses.vacant nowhere
  have fresh : table.most state limit = table.bucketSize := by
    rw [most, vacant]
    rfl
  refine ⟨turned.mono fun last most linked => ?_, ?_, iff_of_false Bool.noConfusion ?_⟩
  · obtain ⟨rfl, rfl⟩ := linked
    exact ⟨.first flat nothing, by rw [fresh, Table.most, ite_self]⟩
  · have reach_le := houses.shelves.formed.reach_le_global (table.hash key)
    omega
  · rw [fresh, nothing, crowd, List.countP_nil]
    exact Nat.ne_of_lt positive

theorem insertOrSplit_runs (configured : table.Configured)
    (houses : Houses table.hash memory.toPages directory state limit entries) (pins : memory.pins = {directory})
    (room : terms.Room memory 1) :
    Runs leases terms (table.insertOrSplit directory key value : Pool.Action σ (Option Bool)) memory
      (fun answer later => match answer with
        | none => crowd table.hash (state.reach (table.hash key)) (table.hash key) entries = limit ∧
          Parted table.hash directory state limit entries (table.hash key) memory later
        | some inserted => Decided table directory state limit entries key value memory inserted later)
      (Settled table.hash directory entries memory) := by
  have formed := houses.shelves.formed
  refine Runs.step (Runs.view _ (by simp [pins]) (houses.bucketIn (table.hash key))) ?_
  dsimp only
  by_cases valid : (state.home (table.hash key)).isValid = true
  · have mentioned := mentions_home valid
    have holds := houses.shelves.holds _ mentioned
    have issued := houses.shelves.issued _ mentioned
    have most : table.most state limit = limit := if_pos (formed.mentions_valid mentioned 0 state.size_pos)
    rw [valid]
    refine Runs.holding memory.pins memory.pins houses.settled issued (by simp [pins])
      (by simpa [pins] using houses.apart mentioned) holds.written ?_
    let shelved := routed table.hash state.home (state.home (table.hash key)) entries
    refine Runs.step (Runs.view (decide (limit ≤ shelved.length)) (Multiset.mem_cons_self _ _) ?_) ?_
    · rw [Memory.content_pin, bind_of_ok _ holds.ofBytes]
      exact holds.isFull
    by_cases full : limit ≤ shelved.length
    · rw [decide_eq_true full, if_pos rfl]
      have filled := (crowd_reach formed (table.hash key) entries).trans (Nat.le_antisymm holds.length_le full)
      have under_pin : Houses table.hash (memory.pin (state.home (table.hash key))).toPages directory state limit
          entries := houses
      have divides : Runs leases terms (table.divideBucket directory _ _ : Pool.Action σ Bool) _ _ _ :=
        divideBucket_runs under_pin mentioned (by simp [pins]) room
      refine Runs.bind (divides.mono (fun _ _ => id) fun _ settled => settled.unpin) fun divided later known => ?_
      cases divided with
      | false =>
        obtain ⟨rfl, deepest⟩ := known
        exact Runs.pure ⟨rfl, houses.refused most filled deepest⟩
      | true => exact Runs.pure ⟨known.pins, filled, rfl, known.next, known.first, known.houses, known.tends⟩
    · rw [decide_eq_false full, if_neg Bool.false_ne_true]
      have roomy : shelved.length < limit := Nat.not_le.mp full
      obtain ⟨filled, inserted, grown⟩ := holds.insert roomy key value
      refine Runs.step (Runs.edit true filled (Multiset.mem_cons_self _ _) ?_) (Runs.pure ?_)
      · rw [Memory.content_pin, bind_of_ok _ holds.ofBytes, bind_of_ok _ inserted]
        rfl
      exact ⟨rfl, houses.put mentioned most roomy grown⟩
  · have nowhere : (state.home (table.hash key)).isValid = false := by simpa using valid
    obtain ⟨vacant, zero, -, -⟩ := houses.vacant nowhere
    rw [nowhere, zero]
    refine Runs.bind (insertFirst_runs configured houses vacant pins room) fun inserted later known => Runs.pure ?_
    obtain ⟨rfl, one, turned⟩ := known
    exact houses.decided_first nowhere configured.positive one turned

/-- Each pass that splits takes the bucket one bit further, and no bucket goes beyond the depth of its directory. -/
theorem insertWithin_runs (configured : table.Configured) {passes : Nat}
    (houses : Houses table.hash memory.toPages directory state limit entries) (pins : memory.pins = {directory})
    (enough : state.maxDepth < passes + state.reach (table.hash key))
    (room : terms.Room memory passes) :
    Runs leases terms (table.insertWithin directory key value passes : Pool.Action σ Bool) memory
      (Decided table directory state limit entries key value memory) (Settled table.hash directory entries memory) := by
  induction passes generalizing memory state with
  | zero =>
    -- Passes run out only for a bucket that is deeper than its directory may be.
    have within := houses.shelves.formed.reach_le (table.hash key)
    omega
  | succ passes ih =>
    refine Runs.bind (insertOrSplit_runs configured houses pins (room.of_le (by omega))) fun answer later known => ?_
    cases answer with
    | some inserted => exact Runs.pure known
    | none =>
      -- One pass less, and one bit more: `enough` holds of what is left.
      obtain ⟨full, pins_later, next, first, ⟨last, ends, deepens⟩, tends⟩ := known
      have split : Settled table.hash directory entries memory later := ⟨pins_later, ⟨_, _, ends⟩, tends⟩
      have limited := deepens.maxDepth
      have further := deepens.reach
      have some_bit : 0 < last.reach (table.hash key) := by omega
      have first_later := ends.shelves.formed.full_of_reach some_bit 0 last.size_pos
      have same : table.most last limit = table.most state limit := (if_pos first_later).trans (if_pos first).symm
      refine (ih ends (pins_later.trans pins) (by omega) (room.of_le (by omega))).mono (fun inserted done decided => ?_)
        fun _ settled => split.trans settled
      obtain ⟨⟨pins_done, ⟨final, most, houses_done, grows, like⟩, tends_done⟩, made, full_iff⟩ := decided
      rw [same] at grows like full_iff
      rw [limited] at full_iff
      have most_eq : table.most state limit = limit := if_pos first
      exact ⟨⟨pins_done.trans pins_later, ⟨final, most, houses_done,
        .split ends.shelves.formed (full.trans most_eq.symm) deepens grows, like⟩, tends.trans tends_done⟩, by omega,
        full_iff⟩

end PagedIndex.Table
