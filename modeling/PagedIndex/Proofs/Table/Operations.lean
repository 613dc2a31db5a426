import Mathlib
import PagedIndex.Proofs.Table.Stores

/-!
# Operations on tables

Each operation on a table is one on the list that the table stores, or fails and leaves the list alone. Only
a removal that fails may have taken the entries out before.
-/

namespace PagedIndex.Table

open DirectoryState
open Pool (Runs keeping holding entrusting view edit amend)

variable {K V σ : Type} [FixedWidth K] [FixedWidth V] [BackingStore σ] [PageKeeper σ]
  {leases : List Lease} {terms : Pool.Terms} {table : Table K V} {pages : Pages} {memory later : Memory}
  {entries list : List (K × V)} {key : K} {value : V}

/-- The directories that the header lists are still listed there. -/
structure Keeps (table : Table K V) (before after : Pages) : Prop where
  next : before.next ≤ after.next
  breadth : table.breadth after = table.breadth before
  route : table.route after = table.route before
  branch : ∀ slot < table.breadth before, (table.branch before slot).isValid = true →
    table.branch after slot = table.branch before slot

/-- What an operation on a table leaves behind. -/
structure Serves (table : Table K V) (entries : List (K × V)) (memory later : Memory) : Prop where
  pins : later.pins = memory.pins
  keeps : Keeps table memory.toPages later.toPages
  stores : Stores table later.toPages entries
  upkeep : Upkeep (Owns table) memory.toAnnals later.toAnnals

omit [FixedWidth K] [FixedWidth V] in
theorem Keeps.refl (table : Table K V) (pages : Pages) : Keeps table pages pages :=
  ⟨UInt32.le_refl _, rfl, rfl, fun _ _ _ => rfl⟩

omit [FixedWidth K] [FixedWidth V] in
theorem Keeps.trans {before middle after : Pages} (first : Keeps table before middle)
    (second : Keeps table middle after) : Keeps table before after where
  next := UInt32.le_trans first.next second.next
  breadth := second.breadth.trans first.breadth
  route := second.route.trans first.route
  branch slot small valid := by
    have same := first.branch slot small valid
    rw [← same]
    exact second.branch slot (by rwa [first.breadth]) (by rwa [same])

omit [FixedWidth K] [FixedWidth V] in
theorem Keeps.root {before after : Pages} (keeps : Keeps table before after) {hash : UInt32}
    (small : table.route before hash < table.breadth before) (valid : (table.root before hash).isValid = true) :
    table.root after hash = table.root before hash := by
  rw [Table.root, keeps.route]
  exact keeps.branch _ small valid

theorem Stores.keeps_shown {pages after seen : Pages} (stores : Stores table after entries)
    (keeps : Keeps table pages after) (shown : after.Shown seen) : Keeps table pages seen := by
  obtain ⟨branches, breadths, routing⟩ := stores.outline_shown shown
  refine ⟨UInt32.le_trans keeps.next (UInt32.le_of_eq shown.next.symm), breadths.trans keeps.breadth,
    routing.trans keeps.route, ?_⟩
  rw [branches]
  exact keeps.branch

theorem Stores.serves (stores : Stores table memory.toPages entries) : Serves table entries memory memory :=
  ⟨rfl, .refl table memory.toPages, stores, .refl _ memory.toAnnals⟩

theorem Serves.unpin {page : PageId} (serves : Serves table list (memory.pin page) later) :
    later.pins = page ::ₘ memory.pins ∧ Serves table list memory { later with pins := memory.pins } :=
  ⟨serves.pins, rfl, serves.keeps, serves.stores, serves.upkeep⟩

/-- Those of the entries that the header routes to the directory of a hash. -/
def gathered (table : Table K V) (pages : Pages) (hash : UInt32) (entries : List (K × V)) : List (K × V) :=
  routed table.hash (table.route pages) (table.route pages hash) entries

theorem Stores.rooted (stores : Stores table pages entries) {hash : UInt32}
    (valid : (table.root pages hash).isValid = true) : ∃ state limit,
      Houses table.hash pages (table.root pages hash) state limit (table.gathered pages hash entries) :=
  stores.houses _ (stores.route_lt hash) valid

/-- There is a directory for an entry, and a bucket in it. -/
theorem Stores.housed (stores : Stores table pages entries) {entry : K × V} (member : entry ∈ entries) :
    (table.root pages (table.hash entry.1)).isValid = true ∧
      entry ∈ table.gathered pages (table.hash entry.1) entries ∧ ∃ state limit,
        Houses table.hash pages (table.root pages (table.hash entry.1)) state limit
          (table.gathered pages (table.hash entry.1) entries) ∧
        (state.home (table.hash entry.1)).isValid = true := by
  have here : entry ∈ table.gathered pages (table.hash entry.1) entries :=
    List.mem_filter.mpr ⟨member, decide_eq_true rfl⟩
  have valid : (table.root pages (table.hash entry.1)).isValid = true := by
    by_contra invalid
    have nothing : table.gathered pages (table.hash entry.1) entries = [] :=
      stores.vacant _ (stores.route_lt _) (by simpa [root] using invalid)
    rw [nothing] at here
    cases here
  obtain ⟨state, limit, houses⟩ := stores.rooted valid
  exact ⟨valid, here, state, limit, houses, houses.home_valid here⟩

/-- The values that are found under a key: those in the bucket of its hash. -/
def listing (table : Table K V) (pages : Pages) (key : K) (entries : List (K × V)) : List V :=
  let home := (Directory.stateOf (pages.content (table.root pages (table.hash key)))).home
  under table.compare key
    (routed table.hash home (home (table.hash key)) (table.gathered pages (table.hash key) entries))

omit [FixedWidth K] [FixedWidth V] in
/-- If equal keys have equal hashes, all values under the key are found. -/
theorem listing_eq (agrees : Agrees table.compare table.hash) (pages : Pages) (key : K) (entries : List (K × V)) :
    table.listing pages key entries = under table.compare key entries :=
  (under_routed agrees key _).trans (under_routed agrees key entries)

omit [FixedWidth K] [FixedWidth V] in
theorem listing_of_none {pages : Pages} (nothing : table.gathered pages (table.hash key) entries = []) :
    table.listing pages key entries = [] := by
  rw [listing, nothing]
  rfl

theorem Stores.finds (stores : Stores table pages entries) {values : List V} (finds : Finds table pages key values) :
    values = table.listing pages key entries := by
  cases finds with
  | unlisted nowhere => rw [listing_of_none (stores.vacant _ (stores.route_lt _) nowhere)]
  | vacant listed nowhere =>
    obtain ⟨state, limit, houses⟩ := stores.rooted listed
    rw [leaf, houses.denotes.state_eq] at nowhere
    rw [listing_of_none (houses.vacant nowhere).2.2.2]
  | found listed full holds =>
    obtain ⟨state, limit, houses⟩ := stores.rooted listed
    have same := houses.denotes.state_eq
    rw [leaf, same] at full holds
    have lists := holds.entries_ok.symm.trans (houses.shelves.holds _ (mentions_home full)).entries_ok
    rw [listing, same, Except.ok.inj lists]

theorem find_runs (stores : Stores table memory.toPages entries) (free : memory.pins = 0) (key : K) :
    Runs leases terms (table.find key : Pool.Action σ (List V)) memory
      (fun values later => values = table.listing memory.toPages key entries ∧ later = memory)
      (fun later => later = memory) :=
  (stores.legible.find_runs free key).mono (fun _ _ => And.imp_left stores.finds) fun _ => id

/-! ### Inserting -/

structure Pinned (table : Table K V) (entries : List (K × V)) (hash : UInt32) (memory : Memory) (directory : PageId)
    (later : Memory) : Prop where
  root : directory = table.root later.toPages hash
  valid : directory.isValid = true
  pins : later.pins = directory ::ₘ memory.pins
  next : later.next.toNat ≤ memory.next.toNat + 1
  keeps : Keeps table memory.toPages later.toPages
  elsewhere : Elsewhere table (table.route memory.toPages hash) memory.toPages later.toPages
  stores : Stores table later.toPages entries
  upkeep : Upkeep (Owns table) memory.toAnnals later.toAnnals
  /-- A directory that was just made has no bucket yet. -/
  old : (table.root memory.toPages hash).isValid = true ∧ later = memory.pin directory ∨
    (table.root memory.toPages hash).isValid = false ∧
      Directory.Denotes (later.content directory) (Directory.freshState table.directoryDepth)

theorem Stores.entered (stores : Stores table memory.toPages entries) {hash : UInt32}
    (invalid : (table.root memory.toPages hash).isValid = false) (less : memory.next < memory.next + 1)
    {fresh linked : Page}
    (denotes : Directory.Denotes fresh (Directory.freshState table.directoryDepth)) (routes : Header.Routes linked)
    (depth : Header.depthOf linked = Header.depthOf (memory.content table.header))
    (listed : ∀ other, Header.directoryAt linked other = if other = table.route memory.toPages hash then ⟨memory.next⟩
      else Header.directoryAt (memory.content table.header) other)
    (valid : (⟨memory.next⟩ : PageId).isValid = true) :
    Pinned table entries hash memory ⟨memory.next⟩
      ((memory.grow.write ⟨memory.next⟩ fresh).write table.header linked) := by
  let after := (memory.grow.write ⟨memory.next⟩ fresh).write table.header linked
  have young : table.header ≠ ⟨memory.next⟩ := ne_of_issued stores.issued
  have at_header : after.content table.header = linked := by simp [after]
  have at_next : after.content ⟨memory.next⟩ = fresh := by simp [after, young.symm]
  have branches : ∀ other, table.branch after.toPages other =
      if other = table.route memory.toPages hash then ⟨memory.next⟩ else table.branch memory.toPages other := by
    intro other
    rw [branch, at_header]
    exact listed other
  have routing : table.route after.toPages = table.route memory.toPages := by
    rw [route, at_header, depth, route]
  have others : ∀ page, page.number < memory.next → page ≠ table.header →
      after.content page = memory.content page := fun page old other => by simp [after, other, ne_of_issued old]
  have founded : Stores table after.toPages entries := by
    exact stores.founded stores.configured.depth (stores.route_lt hash) invalid less (by rwa [at_header])
      (by rw [at_header, depth]) branches (by rwa [at_next]) others
  have elsewhere : Elsewhere table (table.route memory.toPages hash) memory.toPages after.toPages :=
    fun slot small differ => ⟨by rw [branches, if_neg differ.symm], stores.old_same others small⟩
  have breadths : table.breadth after.toPages = table.breadth memory.toPages := by
    rw [breadth, at_header, depth, breadth]
  have grown := stores.founded_owns (stores.route_lt hash) invalid valid breadths branches (by rwa [at_next]) others
  have upkeep : Upkeep (Owns table) memory.toAnnals after.toAnnals :=
    .of_made rfl less rfl (fun page old apart => others page old fun same => apart (.inl same)) grown
  refine ⟨?_, valid, rfl, ?_, ⟨UInt32.le_of_lt less, breadths, routing, fun slot _ there => ?_⟩, elsewhere, founded,
    upkeep, .inr ⟨invalid, ?_⟩⟩
  · rw [root, routing, branches, if_pos rfl]
  · exact Nat.le_of_eq (Pool.toNat_succ_of_lt less)
  · rw [branches, if_neg]
    rintro rfl
    rw [root] at invalid
    rw [invalid] at there
    cases there
  · rwa [at_next]

theorem pinOrMakeDirectory_runs (stores : Stores table memory.toPages entries) (free : memory.pins = 0)
    (hash : UInt32) (room : terms.Room memory 1) :
    Runs leases terms (table.pinOrMakeDirectory hash : Pool.Action σ PageId) memory (Pinned table entries hash memory)
      (fun later => later = memory) := by
  refine Runs.step (stores.legible.pinDirectory_runs free hash rfl) ?_
  by_cases valid : (table.root memory.toPages hash).isValid = true
  · rw [if_pos valid, if_pos valid]
    exact Runs.pure ⟨rfl, valid, rfl, Nat.le_succ _, .refl table _, .refl table _ _, stores,
      .refl _ memory.toAnnals, .inl ⟨valid, rfl⟩⟩
  rw [if_neg valid, if_neg valid]
  have invalid : (table.root memory.toPages hash).isValid = false := by simpa using valid
  have young : table.header ≠ ⟨memory.next⟩ := ne_of_issued stores.issued
  refine Runs.holding ((⟨memory.next⟩ : PageId) ::ₘ memory.pins) memory.pins rfl stores.issued (by simp [free])
    (by simp [free]) stores.routes.written ?_
  have leads := stores.routes.directory (stores.route_lt hash)
  refine Runs.step (Runs.view (table.route memory.toPages hash, table.root memory.toPages hash)
    (Multiset.mem_cons_self _ _) ?_) ?_
  · rw [Memory.content_pin, bind_of_ok _ stores.routes.ofBytes, bind_of_ok _ (stores.routes.slotFor hash)]
    exact bind_of_ok _ leads
  dsimp only
  rw [if_neg valid]
  refine Runs.bind (Runs.new ⟨rfl, rfl⟩ (by simp [free]) room) fun made grown known => ?_
  obtain ⟨directory, id⟩ := made
  obtain ⟨rfl, real, less, rfl⟩ := known
  obtain ⟨fresh, formatted, denotes⟩ :=
    Directory.format_ok (memory.content ⟨memory.next⟩) stores.configured.depth
  obtain ⟨linked, link, routes, depth, listed⟩ :=
    stores.routes.setDirectory (stores.route_lt hash) ⟨memory.next⟩
  have entered := stores.entered invalid less denotes routes depth listed real
  have header_there : table.header ∈ (memory.pin table.header).grow.pins :=
    Multiset.mem_cons_of_mem (Multiset.mem_cons_self _ _)
  refine Runs.bind (Runs.entrusting (table.header ::ₘ memory.pins)
    (Runs.step (Runs.amend fresh (Multiset.mem_cons_self _ _) ?_) (Runs.amend linked header_there ?_)))
    fun _ later known => Runs.pure ?_
  · rw [Memory.content_grow, Memory.content_pin]
    exact bind_of_ok _ formatted
  · rw [Memory.content_write, Memory.next_pin, if_neg young, Memory.content_grow, Memory.content_pin,
      bind_of_ok _ stores.routes.ofBytes]
    exact bind_of_ok _ link
  obtain ⟨_, rfl⟩ := known
  exact ⟨Multiset.cons_swap _ _ _, entered⟩

/-- How many bits the directory of a hash may use: as many as its page says, or a new one would. -/
def depthLimit (table : Table K V) (pages : Pages) (hash : UInt32) : Nat :=
  if (table.root pages hash).isValid then (Directory.stateOf (pages.content (table.root pages hash))).maxDepth
  else table.directoryDepth

/-- How many entries the bucket of a hash may hold: as many as its page says, or a new one would. -/
def sizeLimit (table : Table K V) (pages : Pages) (hash : UInt32) : Nat :=
  let bucket := (Directory.stateOf (pages.content (table.root pages hash))).home hash
  if (table.root pages hash).isValid ∧ bucket.isValid then ((pages.content bucket).wordAt Bucket.limitAt).toNat
  else table.bucketSize

theorem Houses.limits {pages : Pages} {hash : UInt32} {state : DirectoryState} {limit : Nat}
    (houses : Houses table.hash pages (table.root pages hash) state limit list)
    (valid : (table.root pages hash).isValid = true) :
    table.depthLimit pages hash = state.maxDepth ∧ table.sizeLimit pages hash = table.most state limit := by
  rw [depthLimit, if_pos valid, sizeLimit, houses.denotes.state_eq]
  refine ⟨rfl, ?_⟩
  by_cases some_home : (state.home hash).isValid = true
  · have mentioned := mentions_home some_home
    rw [if_pos ⟨valid, some_home⟩, most, if_pos (houses.shelves.formed.mentions_valid mentioned 0 state.size_pos)]
    exact (houses.shelves.holds _ mentioned).limit_eq
  · have vacant := (houses.vacant (by simpa using some_home)).1
    rw [if_neg fun both => some_home both.2, most, vacant]
    rfl

/-- The limits that hold for a hash do not depend on whether its directory was made before. -/
theorem Pinned.limits {hash : UInt32} {directory : PageId} {state : DirectoryState} {limit : Nat}
    (pinned : Pinned table entries hash memory directory later)
    (houses : Houses table.hash later.toPages directory state limit list) :
    state.maxDepth = table.depthLimit memory.toPages hash ∧
      table.most state limit = table.sizeLimit memory.toPages hash := by
  rcases pinned.old with ⟨valid, rfl⟩ | ⟨invalid, fresh⟩
  · have root : directory = table.root memory.toPages hash := pinned.root
    rw [root] at houses
    have there : Houses table.hash memory.toPages (table.root memory.toPages hash) state limit list := houses
    obtain ⟨depth, size⟩ := there.limits valid
    exact ⟨depth.symm, size.symm⟩
  · have state_eq : state = Directory.freshState table.directoryDepth :=
      houses.denotes.state_eq.symm.trans fresh.state_eq
    rw [depthLimit, if_neg (by simp [invalid]), sizeLimit, if_neg (by simp [invalid]), state_eq]
    exact ⟨rfl, if_neg Bool.false_ne_true⟩

theorem Pinned.shape {hash : UInt32} {directory : PageId} {state : DirectoryState} {limit : Nat}
    (pinned : Pinned table entries hash memory directory later)
    (houses : Houses table.hash later.toPages directory state limit list) :
    table.shape memory.toPages (table.route memory.toPages hash) = state := by
  rcases pinned.old with ⟨valid, rfl⟩ | ⟨invalid, fresh⟩
  · have root : directory = table.root memory.toPages hash := pinned.root
    rw [root] at houses
    exact (shape_of_valid valid).trans houses.denotes.state_eq
  · exact (shape_of_invalid invalid).trans (fresh.state_eq.symm.trans houses.denotes.state_eq)

theorem Stores.header_same {pages after : Pages} {slot : Nat} (stores : Stores table pages entries)
    (small : slot < table.breadth pages) (valid : (table.branch pages slot).isValid = true)
    (minds : Minds (Reaches · (table.branch pages slot)) pages after) :
    after.content table.header = pages.content table.header :=
  minds.others _ stores.issued (stores.header_apart small valid)

theorem Stores.keeps {pages after : Pages} {slot : Nat} (stores : Stores table pages entries)
    (small : slot < table.breadth pages) (valid : (table.branch pages slot).isValid = true)
    (minds : Minds (Reaches · (table.branch pages slot)) pages after) : Keeps table pages after := by
  obtain ⟨branches, breadths, routing⟩ := outline_congr (stores.header_same small valid minds)
  exact ⟨minds.next, breadths, routing, fun _ _ _ => by rw [branches]⟩

theorem Stores.shape_after {pages after : Pages} {hash : UInt32} {last : DirectoryState} {limit : Nat}
    (stores : Stores table pages entries) (valid : (table.root pages hash).isValid = true)
    (minds : Minds (Reaches · (table.root pages hash)) pages after)
    (houses : Houses table.hash after (table.root pages hash) last limit list) :
    table.branch after (table.route pages hash) = table.root pages hash ∧
      table.shape after (table.route pages hash) = last := by
  obtain ⟨branches, _⟩ := outline_congr (stores.header_same (stores.route_lt hash) valid minds)
  have same : table.branch after (table.route pages hash) = table.root pages hash := by rw [branches, root]
  refine ⟨same, ?_⟩
  rw [shape_of_valid (by rwa [same]), same]
  exact houses.denotes.state_eq

/-- What is done with the entries of one directory is done with those of the table. -/
theorem Stores.settled {hash : UInt32} {middle : Memory} (stores : Stores table memory.toPages entries)
    (valid : (table.root memory.toPages hash).isValid = true)
    (settled : Settled table.hash (table.root memory.toPages hash) (table.gathered memory.toPages hash list) memory
      middle)
    (others : ∀ slot, table.route memory.toPages hash ≠ slot →
      routed table.hash (table.route memory.toPages) slot list =
        routed table.hash (table.route memory.toPages) slot entries) :
    Serves table list memory middle :=
  ⟨settled.pins, stores.keeps (stores.route_lt hash) valid settled.tended.tends.toMinds,
    stores.tended (stores.route_lt hash) valid settled.tended.houses settled.tended.tends.toMinds others,
    stores.upkeep (stores.route_lt hash) valid settled.tended.tends⟩

/-- What an insertion makes of a table: it is all in the one directory that the header routes the entry to. -/
structure Grown (table : Table K V) (entries : List (K × V)) (hash : UInt32) (inserted : Bool) (before after : Pages) :
    Prop where
  valid : (table.branch after (table.route before hash)).isValid = true
  grows : Grows table.hash (table.sizeLimit before hash) hash (table.gathered before hash entries)
    (table.shape before (table.route before hash)) inserted (table.shape after (table.route before hash))
  sizes : ∀ other, table.route before other = table.route before hash →
    table.sizeLimit after other = table.sizeLimit before hash
  elsewhere : Elsewhere table (table.route before hash) before after
  made : after.next.toNat ≤ before.next.toNat + (maxDirectoryDepth + 2)

theorem Stores.sizeLimit_shown {seen : Pages} (stores : Stores table pages entries) (shown : pages.Shown seen)
    (hash : UInt32) : table.sizeLimit seen hash = table.sizeLimit pages hash := by
  obtain ⟨branches, -, routing⟩ := stores.outline_shown shown
  have root : table.root seen hash = table.root pages hash := by rw [Table.root, branches, routing, Table.root]
  rw [sizeLimit, sizeLimit, root]
  by_cases valid : (table.root pages hash).isValid = true
  · obtain ⟨state, limit, houses⟩ := stores.rooted valid
    rw [shown.content _ houses.denotes.written]
    refine if_ctx_congr Iff.rfl (fun both => ?_) fun _ => rfl
    have reached : Reaches pages (table.root pages hash) _ := .inr (mentions_home both.2)
    rw [shown.content _ (stores.reached_written (stores.route_lt hash) valid reached)]
  · rw [if_neg fun both => valid both.1, if_neg fun both => valid both.1]

theorem Grown.shown {hash : UInt32} {inserted : Bool} {after seen : Pages}
    (grown : Grown table entries hash inserted pages after) (keeps : Keeps table pages after)
    (stores : Stores table pages entries) (left : Stores table after list) (shown : after.Shown seen) :
    Grown table entries hash inserted pages seen := by
  obtain ⟨branches, -, -⟩ := left.outline_shown shown
  refine ⟨by rw [branches]; exact grown.valid, ?_, fun other same => ?_, grown.elsewhere.shown stores left shown, ?_⟩
  · rw [left.shape_shown shown (by rw [keeps.breadth]; exact stores.route_lt hash)]
    exact grown.grows
  · rw [left.sizeLimit_shown shown]
    exact grown.sizes other same
  · rw [shown.next]
    exact grown.made

/-- What an insertion leaves behind, and when it says no. -/
structure Inserted (table : Table K V) (entries : List (K × V)) (key : K) (value : V) (memory : Memory)
    (inserted : Bool) (later : Memory) : Prop where
  serves : Serves table (if inserted then entries ++ [(key, value)] else entries) memory later
  grown : Grown table entries (table.hash key) inserted memory.toPages later.toPages
  full_iff : inserted = false ↔
    crowd table.hash (table.depthLimit memory.toPages (table.hash key)) (table.hash key)
      (table.gathered memory.toPages (table.hash key) entries) = table.sizeLimit memory.toPages (table.hash key)

theorem Pinned.serves {hash : UInt32} {directory : PageId} {middle : Memory}
    (pinned : Pinned table entries hash memory directory middle) (serves : Serves table list middle later) :
    later.pins = directory ::ₘ memory.pins ∧ Serves table list memory { later with pins := memory.pins } :=
  ⟨serves.pins.trans pinned.pins, rfl, pinned.keeps.trans serves.keeps, serves.stores,
    pinned.upkeep.trans serves.upkeep⟩

theorem Pinned.grown {directory : PageId} {middle : Memory} {state : DirectoryState} {limit : Nat} {inserted : Bool}
    (pinned : Pinned table entries (table.hash key) memory directory middle)
    (houses : Houses table.hash middle.toPages directory state limit
      (table.gathered middle.toPages (table.hash key) entries))
    (decided : Decided table directory state limit (table.gathered middle.toPages (table.hash key) entries) key value
      middle inserted later) : Grown table entries (table.hash key) inserted memory.toPages later.toPages := by
  obtain ⟨depth, size⟩ := pinned.limits houses
  have before := pinned.shape houses
  have valid := pinned.valid
  have limited := houses.shelves.formed.limited
  have routes := pinned.keeps.route
  have one := pinned.next
  have made := decided.made
  obtain rfl := pinned.root
  obtain ⟨_, ⟨last, most, ends, grows, like⟩, tends⟩ := decided.turned
  obtain ⟨branch, shape⟩ := pinned.stores.shape_after valid tends.toMinds ends
  rw [size, gathered, routes, ← before, ← shape, routes] at grows
  rw [routes] at branch
  refine ⟨by rwa [branch], grows, fun other same => ?_, pinned.elsewhere.trans ?_ pinned.keeps.breadth, by omega⟩
  · have root : table.root later.toPages other = table.root middle.toPages (table.hash key) := by
      rw [Table.root, (pinned.stores.keeps (pinned.stores.route_lt _) valid tends.toMinds).route, routes, same, branch]
    rw [← root] at ends
    rw [(ends.limits (by rwa [root])).2, like, size]
  · rw [← routes]
    exact pinned.stores.elsewhere (pinned.stores.route_lt _) valid tends.toMinds.heeds

variable [RoundTrips K] [RoundTrips V]

theorem insert_runs (stores : Stores table memory.toPages entries) (free : memory.pins = 0)
    (room : terms.Room memory (maxDirectoryDepth + 3)) :
    Runs leases terms (table.insert key value : Pool.Action σ Bool) memory
      (Inserted table entries key value memory) (Serves table entries memory) := by
  refine Runs.bind
    ((pinOrMakeDirectory_runs stores free (table.hash key) (room.of_le (by omega))).mono (fun _ _ => id) ?_)
    fun directory middle pinned => ?_
  · rintro later rfl
    exact stores.serves
  have valid := pinned.valid
  obtain rfl := pinned.root
  obtain ⟨state, limit, houses⟩ := pinned.stores.rooted valid
  have pins : middle.pins = {table.root middle.toPages (table.hash key)} := by
    rw [pinned.pins, free]
    rfl
  have limited := houses.shelves.formed.limited
  have one := pinned.next
  refine Runs.keeping memory.pins memory.pins ?_
  refine Runs.step (Runs.view state.maxDepth (by simp [pins]) ?_) ?_
  · rw [bind_of_ok _ houses.denotes.ofBytes, houses.denotes.maxDepth]
  rw [if_neg (by simp only [maxDirectoryDepth] at limited; simp only [wordBound]; omega)]
  refine (insertWithin_runs pinned.stores.configured houses pins (by omega) (room.of_le (by omega))).mono
    (fun inserted last decided => ?_) fun last settled => ?_
  · obtain ⟨depth, size⟩ := pinned.limits houses
    have serves : Serves table (if inserted then entries ++ [(key, value)] else entries) middle last := by
      refine pinned.stores.settled valid ?_ fun slot differ => ?_
      · cases inserted with
        | true =>
          rw [if_pos rfl, gathered, routed_append_home]
          exact decided.turned.settled
        | false => exact decided.turned.settled
      · cases inserted with
        | true => exact routed_append_other differ value
        | false => rfl
    obtain ⟨back, serves⟩ := pinned.serves serves
    have grown : Grown table entries (table.hash key) inserted memory.toPages last.toPages :=
      pinned.grown houses decided
    refine ⟨back, serves, grown, ?_⟩
    rw [← depth, ← size, gathered, ← pinned.keeps.route]
    exact decided.full_iff
  · exact pinned.serves (pinned.stores.settled valid settled fun _ _ => rfl)

/-! ### Removing -/

/-- What a removal makes of the list. If equal keys have equal hashes it takes out all entries under the key. -/
def Rid (table : Table K V) (key : K) (entries list : List (K × V)) : Prop :=
  Agrees table.compare table.hash → list = without table.compare key entries

/-- What a removal makes of a table: it is all in the one directory that the header routes the key to. -/
structure Lessened (table : Table K V) (entries list : List (K × V)) (hash : UInt32) (before after : Pages) :
    Prop where
  others : ∀ slot, table.route before hash ≠ slot →
    routed table.hash (table.route before) slot list = routed table.hash (table.route before) slot entries
  sheds : Sheds table.hash hash (table.gathered before hash entries) (table.gathered before hash list)
    (table.shape before (table.route before hash)) (table.shape after (table.route before hash))
  elsewhere : Elsewhere table (table.route before hash) before after

omit [RoundTrips K] [RoundTrips V] in
theorem Lessened.shown {hash : UInt32} {after seen : Pages} (lessened : Lessened table entries list hash pages after)
    (keeps : Keeps table pages after) (stores : Stores table pages entries) (left : Stores table after list)
    (shown : after.Shown seen) : Lessened table entries list hash pages seen := by
  refine ⟨lessened.others, ?_, lessened.elsewhere.shown stores left shown⟩
  rw [left.shape_shown shown (by rw [keeps.breadth]; exact stores.route_lt hash)]
  exact lessened.sheds

omit [RoundTrips K] [RoundTrips V] in
theorem Stores.lessened {hash : UInt32} {state : DirectoryState} {limit : Nat}
    (stores : Stores table memory.toPages entries) (valid : (table.root memory.toPages hash).isValid = true)
    (houses : Houses table.hash memory.toPages (table.root memory.toPages hash) state limit
      (table.gathered memory.toPages hash entries))
    (others : ∀ slot, table.route memory.toPages hash ≠ slot →
      routed table.hash (table.route memory.toPages) slot list =
        routed table.hash (table.route memory.toPages) slot entries)
    (turned : Turned table.hash (table.root memory.toPages hash) (table.gathered memory.toPages hash list)
      (fun last _ => Sheds table.hash hash (table.gathered memory.toPages hash entries)
        (table.gathered memory.toPages hash list) state last) memory later) :
    Lessened table entries list hash memory.toPages later.toPages := by
  obtain ⟨_, ⟨final, most, ends, sheds⟩, tends⟩ := turned
  obtain ⟨_, shape⟩ := stores.shape_after valid tends.toMinds ends
  have before : table.shape memory.toPages (table.route memory.toPages hash) = state :=
    (shape_of_valid valid).trans houses.denotes.state_eq
  rw [← before, ← shape] at sheds
  exact ⟨others, sheds, stores.elsewhere (stores.route_lt _) valid tends.toMinds.heeds⟩

omit [RoundTrips K] [RoundTrips V] in
/-- What is taken out of the bucket of a key is taken out of the table. If equal keys may differ in their hashes, other
buckets keep entries under the key. -/
theorem Stores.rid (stores : Stores table memory.toPages entries) {state : DirectoryState}
    (valid : (table.root memory.toPages (table.hash key)).isValid = true)
    (settled : Settled table.hash (table.root memory.toPages (table.hash key))
      (struck table.hash state.home table.compare key (table.gathered memory.toPages (table.hash key) entries))
      (memory.pin (table.root memory.toPages (table.hash key))) later) :
    ∃ list, Rid table key entries list ∧ later.pins = table.root memory.toPages (table.hash key) ::ₘ memory.pins ∧
      Serves table list memory { later with pins := memory.pins } := by
  let list := struck table.hash (fun hash => (table.route memory.toPages hash, state.home hash)) table.compare key
    entries
  have gone : table.gathered memory.toPages (table.hash key) list =
      struck table.hash state.home table.compare key (table.gathered memory.toPages (table.hash key) entries) :=
    routed_struck_both state.home key entries
  rw [← gone] at settled
  have stores_pin : Stores table (memory.pin (table.root memory.toPages (table.hash key))).toPages entries := stores
  exact ⟨list, fun agrees => struck_eq_without agrees key entries,
    (stores_pin.settled valid settled fun slot differ => routed_struck_apart state.home key entries differ).unpin⟩

omit [RoundTrips K] [RoundTrips V] in
theorem remove_runs (stores : Stores table memory.toPages entries) (free : memory.pins = 0) (key : K) :
    Runs leases terms (table.remove key : Pool.Action σ Bool) memory
      (fun removed later =>
        (Agrees table.compare table.hash → (removed = true ↔ under table.compare key entries ≠ [])) ∧
        (removed = false → later = memory) ∧
        ∃ list, Rid table key entries list ∧ Serves table list memory later ∧
          Lessened table entries list (table.hash key) memory.toPages later.toPages)
      (fun later => Serves table entries memory later ∨
        ∃ list, Rid table key entries list ∧ Serves table list memory later) := by
  have here : ∀ agrees : Agrees table.compare table.hash,
      under table.compare key (table.gathered memory.toPages (table.hash key) entries) =
        under table.compare key entries := fun agrees => under_routed agrees key entries
  refine Runs.step (stores.legible.pinDirectory_runs free (table.hash key) (.inl stores.serves)) ?_
  by_cases valid : (table.root memory.toPages (table.hash key)).isValid = true
  · obtain ⟨state, limit, houses⟩ := stores.rooted valid
    rw [if_pos valid, valid]
    let directory := table.root memory.toPages (table.hash key)
    -- If equal keys may differ in their hashes, only the entries in the bucket of the key are taken out.
    let list := struck table.hash (fun hash => (table.route memory.toPages hash, state.home hash)) table.compare key
      entries
    have rid : Rid table key entries list := fun agrees => struck_eq_without agrees key entries
    have gone : table.gathered memory.toPages (table.hash key) list =
        struck table.hash state.home table.compare key (table.gathered memory.toPages (table.hash key) entries) :=
      routed_struck_both state.home key entries
    have others : ∀ slot, table.route memory.toPages (table.hash key) ≠ slot →
        routed table.hash (table.route memory.toPages) slot list =
          routed table.hash (table.route memory.toPages) slot entries := fun slot differ =>
      routed_struck_apart state.home key entries differ
    have under_pin : Houses table.hash (memory.pin directory).toPages directory state limit
        (table.gathered memory.toPages (table.hash key) entries) := houses
    have pins : (memory.pin directory).pins = {directory} := by
      rw [Memory.pins_pin, free]
      rfl
    have stores_pin : Stores table (memory.pin directory).toPages entries := stores
    refine Runs.keeping memory.pins memory.pins ((removeIn_runs under_pin pins).mono
      (fun removed last known => ?_) fun last reduced => ?_)
    · obtain ⟨answered, still, turned⟩ := known
      rw [← gone] at turned
      obtain ⟨back, serves⟩ := (stores_pin.settled valid turned.settled others).unpin
      have lessened := stores_pin.lessened valid under_pin others turned
      refine ⟨back, fun agrees => answered.trans ?_, fun nothing => ?_, list, rid, serves, lessened⟩
      · rw [under_routed agrees, here agrees]
      · rw [still nothing]
        rfl
    · rcases reduced with settled | settled
      · obtain ⟨back, serves⟩ := (stores_pin.settled valid settled fun _ _ => rfl).unpin
        exact ⟨back, .inl serves⟩
      · obtain ⟨list, rid, back, serves⟩ := stores.rid valid settled
        exact ⟨back, .inr ⟨list, rid, serves⟩⟩
  · have nowhere : (table.root memory.toPages (table.hash key)).isValid = false := by simpa using valid
    have nothing : under table.compare key (table.gathered memory.toPages (table.hash key) entries) = [] := by
      rw [gathered, stores.vacant _ (stores.route_lt _) nowhere]
      rfl
    rw [if_neg valid, nowhere]
    refine Runs.pure ⟨fun agrees => by simp [← here agrees, nothing], fun _ => rfl, entries, fun agrees => ?_,
      stores.serves, fun _ _ => rfl, .kept rfl, .refl table _ _⟩
    have same : struck table.hash (table.route memory.toPages) table.compare key entries = entries :=
      struck_of_none nothing
    exact same.symm.trans (struck_eq_without agrees key entries)

end PagedIndex.Table
