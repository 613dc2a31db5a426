import Mathlib
import PagedIndex.Proofs.Table.Calls
import PagedIndex.Proofs.Table.Compact

/-!
# Where the pages of a table go

While nobody else pins pages of a table, every page that its calls have made is its header, a directory, a bucket,
or was deleted; deleted are only buckets that were empty and that no directory listed any more, and each of them
once.
-/

namespace PagedIndex.Table

open Pool (Leaves)
open DirectoryState

variable {K V σ : Type} [FixedWidth K] [FixedWidth V]

/-! ### The kinds of pages -/

/-- A directory page that the header of a table lists. -/
def Lists (table : Table K V) (pages : Pages) (page : PageId) : Prop :=
  ∃ slot < table.breadth pages, (table.branch pages slot).isValid = true ∧ table.branch pages slot = page

/-- A bucket page that a directory of a table lists. -/
def Files (table : Table K V) (pages : Pages) (page : PageId) : Prop :=
  ∃ slot < table.breadth pages, (table.branch pages slot).isValid = true ∧
    (Directory.stateOf (pages.content (table.branch pages slot))).Mentions page

variable {table : Table K V} {pages : Pages} {entries : List (K × V)} {page : PageId} {marks : List Mark}

omit [FixedWidth K] [FixedWidth V] in
theorem owns_iff_kind :
    Owns table pages page ↔ page = table.header ∨ Lists table pages page ∨ Files table pages page := by
  constructor
  · rintro (header | ⟨slot, small, valid, listed | filed⟩)
    · exact .inl header
    · exact .inr (.inl ⟨slot, small, valid, listed.symm⟩)
    · exact .inr (.inr ⟨slot, small, valid, filed⟩)
  · rintro (header | ⟨slot, small, valid, listed⟩ | ⟨slot, small, valid, filed⟩)
    · exact .inl header
    · exact .inr ⟨slot, small, valid, .inl listed.symm⟩
    · exact .inr ⟨slot, small, valid, .inr filed⟩

theorem Stores.lists_tagged (stores : Stores table pages entries) (lists : Lists table pages page) :
    PageKind.directory.Tags (pages.content page) := by
  obtain ⟨slot, small, valid, rfl⟩ := lists
  obtain ⟨state, limit, houses⟩ := stores.houses slot small valid
  exact houses.denotes.tagged

theorem Stores.files_tagged (stores : Stores table pages entries) (files : Files table pages page) :
    PageKind.bucket.Tags (pages.content page) := by
  obtain ⟨slot, small, valid, mentioned⟩ := files
  obtain ⟨state, limit, houses⟩ := stores.houses slot small valid
  rw [houses.denotes.state_eq] at mentioned
  exact (houses.shelves.holds page mentioned).tagged

/-- Pages of different kinds have different tags. -/
theorem Stores.lists_apart (stores : Stores table pages entries) (lists : Lists table pages page) :
    page ≠ table.header := by
  rintro rfl
  cases (stores.lists_tagged lists).unique stores.routes.tagged

theorem Stores.files_apart (stores : Stores table pages entries) (files : Files table pages page) :
    page ≠ table.header ∧ ¬ Lists table pages page := by
  refine ⟨?_, fun lists => ?_⟩
  · rintro rfl
    cases (stores.files_tagged files).unique stores.routes.tagged
  · cases (stores.files_tagged files).unique (stores.lists_tagged lists)

/-- The bucket of an entry is listed by a directory. -/
theorem Stores.files_leaf {entry : K × V} (stores : Stores table pages entries) (member : entry ∈ entries) :
    Files table pages (table.leaf pages (table.hash entry.1)) := by
  obtain ⟨valid, -, state, limit, houses, full⟩ := stores.housed member
  refine ⟨_, stores.route_lt (table.hash entry.1), valid, ?_⟩
  rw [leaf, root, ← root, houses.denotes.state_eq]
  exact mentions_home full

/-- A directory that has shrunk as far as it can lists one bucket if there are no entries. -/
theorem Trim.files_eq (trim : Trim table pages []) (stores : Stores table pages []) (one : table.breadth pages = 1)
    (files : Files table pages page) : page = (table.layout pages 0).bucket 0 := by
  obtain ⟨slot, small, valid, -, other, little, rfl⟩ := files
  obtain ⟨state, limit, houses⟩ := stores.houses slot small valid
  have compact := trim slot small
  rw [shape_of_valid valid, houses.denotes.state_eq] at compact
  have flat := compact.flat houses.shelves.formed
  obtain rfl : slot = 0 := by omega
  rw [houses.denotes.state_eq] at little ⊢
  rw [size, flat, Nat.pow_zero] at little
  obtain rfl : other = 0 := by omega
  rw [layout, houses.denotes.state_eq]

/-- What has become of all pages that a table ever made. -/
structure Accounts (table : Table K V) (pages : Pages) (marks : List Mark) : Prop where
  made_iff : ∀ page, page ∈ madeIn marks ↔
    page = table.header ∨ Lists table pages page ∨ Files table pages page ∨ page ∈ droppedIn marks
  made_once : (madeIn marks).Nodup
  lists_apart : ∀ page, Lists table pages page → page ≠ table.header
  files_apart : ∀ page, Files table pages page → page ≠ table.header ∧ ¬ Lists table pages page
  dropped_apart : ∀ page ∈ droppedIn marks,
    page ≠ table.header ∧ ¬ Lists table pages page ∧ ¬ Files table pages page
  dropped_once : (droppedIn marks).Nodup
  /-- The pool deleted each of them, and had shown an empty bucket that was not listed. -/
  dropped : ∀ page gone seen, Mark.dropped page gone seen ∈ marks →
    gone = true ∧ ¬ Owns table seen page ∧ Bucket.Vacated (seen.content page)

theorem Stores.accounts (stores : Stores table pages entries) (once : (madeIn marks).Nodup)
    (kept_iff : ∀ page, page ∈ madeIn marks ↔ Owns table pages page ∨ page ∈ droppedIn marks)
    (apart : ∀ page ∈ droppedIn marks, ¬ Owns table pages page) (dropped_once : (droppedIn marks).Nodup)
    (dropped : ∀ page gone seen, Mark.dropped page gone seen ∈ marks →
      gone = true ∧ ¬ Owns table seen page ∧ Bucket.Vacated (seen.content page)) : Accounts table pages marks where
  made_iff page := by rw [kept_iff, owns_iff_kind, or_assoc, or_assoc]
  made_once := once
  lists_apart _ lists := stores.lists_apart lists
  files_apart _ files := stores.files_apart files
  dropped_apart page gone := by
    have unowned := apart page gone
    rwa [owns_iff_kind, not_or, not_or] at unowned
  dropped_once := dropped_once
  dropped := dropped

/-! ### Runs -/

variable [BackingStore σ] [PageKeeper σ]

/-- A call through some handle of a table, with the pools before and after it. -/
structure Visit (K V σ : Type) where
  handle : Table K V
  asked : Call K V
  before : Pool σ
  after : Pool σ

/-- The record of a call. By the numbers of the pool it has all pages in it that were made, and by its count of
deletions all that were deleted. -/
structure Visit.Recorded (visit : Visit K V σ) (marks : List Mark) : Prop where
  left : Leaves (visit.handle.call visit.asked) visit.before marks
  made_iff : ∀ page, page ∈ madeIn marks ↔ visit.before.next ≤ page.number ∧ page.number < visit.after.next
  deletes : visit.after.stats.deletes = visit.before.stats.deletes + .ofNat (marks.countP Mark.isGone)

/-- Calls of a table, each at a time when no client has pinned any of its pages, and the moves of clients that leave
its pages alone. -/
inductive Solitary (table : Table K V) (start : Session σ) : List (Visit K V σ) → Session σ → Prop where
  | begun : Solitary table start [] start
  | called {visits : List (Visit K V σ)} {session : Session σ} {handle : Table K V} {pool : Pool σ}
      (before : Solitary table start visits session)
      (alone : ∀ page, Owns table session.pages page → leased session.leases page = 0) (shares : Shares table handle)
      (asked : Call K V) {answer : Except Error asked.Reply}
      (done : Pool.Answers (handle.call asked) session.pool answer pool) :
      Solitary table start (visits ++ [⟨handle, asked, session.pool, pool⟩]) { session with pool }
  | outside {visits : List (Visit K V σ)} {session later : Session σ} {event : Event}
      (before : Solitary table start visits session) (step : session.Step event later)
      (spares : event.Spares (Owns table session.pages)) : Solitary table start visits later

variable {start session : Session σ} {visits : List (Visit K V σ)}

omit [FixedWidth K] [FixedWidth V] in
/-- The deletions of a call all went well if nobody else has pinned a page of the table. -/
theorem gone_of_alone {session : Session σ} {after : Pages} (kept : session.Kept)
    (alone : ∀ page, Owns table session.pages page → leased session.leases page = 0)
    (booked : Booked (Owns table) session.pages marks after) (obliges : Pool.Obliges session.leases marks) {gone : Bool}
    {seen : Pages} (member : Mark.dropped page gone seen ∈ marks) : gone = true := by
  by_contra refused
  rw [Bool.not_eq_true] at refused
  subst refused
  have pinned := obliges page seen member
  rcases (booked.kept_iff page).mpr (.inr (mem_droppedIn.mpr ⟨_, seen, member⟩)) with owned | made
  · rw [alone page owned] at pinned
    cases pinned
  · -- A page that the call has made itself was not there for anybody else to pin.
    obtain ⟨_, _, _, seat, _⟩ := kept.sound.seat page (Nat.add_pos_left pinned _)
    exact UInt32.not_lt.mpr (booked.young page made).1 (kept.sound.coherent.kept.numbered seat.resident)

variable [RoundTrips K] [RoundTrips V]

/-- After the calls so far, their records together balance the pages of the table. -/
structure Squared (table : Table K V) (start : Session σ) (visits : List (Visit K V σ)) (session : Session σ) :
    Prop where
  alive : ∃ entries, Alive table session entries
  next : start.pages.next ≤ session.pages.next
  recorded : ∃ parts, List.Forall₂ Visit.Recorded visits parts ∧
    Balances (Owns table) start.pages parts.flatten session.pages ∧
    ∀ page gone seen, Mark.dropped page gone seen ∈ parts.flatten →
      gone = true ∧ ¬ Owns table seen page ∧ Bucket.Vacated (seen.content page)

theorem Squared.called {handle : Table K V} {asked : Call K V} {answer : Except Error asked.Reply} {pool : Pool σ}
    (squared : Squared table start visits session)
    (alone : ∀ page, Owns table session.pages page → leased session.leases page = 0) (shares : Shares table handle)
    (done : Pool.Answers (handle.call asked) session.pool answer pool) :
    Squared table start (visits ++ [⟨handle, asked, session.pool, pool⟩]) { session with pool } := by
  obtain ⟨⟨entries, alive⟩, next, parts, recorded, balances, dropped⟩ := squared
  obtain ⟨list, called⟩ := (alive.shared shares).called done
  obtain ⟨marks, left, obliges, booked⟩ := called.recorded
  have heeds := called.heeds
  rw [shares.owns] at heeds booked
  have record : Visit.Recorded ⟨handle, asked, session.pool, pool⟩ marks := by
    refine ⟨left, fun page => ⟨booked.young page, fun range => booked.whole page range.1 range.2⟩, ?_⟩
    have counted := left.counted
    cases answer <;> rw [show handle.call asked session.pool = _ from done] at counted <;> exact counted
  refine ⟨⟨list, called.alive.shared (shares.symm alive.stores.configured)⟩, UInt32.le_trans next heeds.next,
    parts ++ [marks], List.rel_append recorded (.cons record .nil), ?_, fun page gone seen member => ?_⟩
  · rw [List.flatten_append, List.flatten_singleton]
    exact balances.trans next heeds.next booked.toBalances
  · rw [List.flatten_append, List.flatten_singleton, List.mem_append] at member
    rcases member with member | member
    · exact dropped page gone seen member
    · obtain ⟨_, apart, vacated⟩ := booked.idle page gone seen member
      exact ⟨gone_of_alone alive.kept alone booked obliges member, apart, vacated⟩

omit [RoundTrips K] [RoundTrips V] in
theorem Squared.outside {later : Session σ} {event : Event} (squared : Squared table start visits session)
    (step : session.Step event later) (spares : event.Spares (Owns table session.pages)) :
    Squared table start visits later := by
  obtain ⟨⟨entries, alive⟩, next, parts, recorded, balances, dropped⟩ := squared
  have more := (alive.kept.moved step).next_le
  have spared := alive.spared step spares
  refine ⟨⟨entries, (alive.outside step spares).1⟩, UInt32.le_trans next more, parts, recorded, ?_, dropped⟩
  have same : Balances (Owns table) session.pages [] later.pages := .none (owns_congr spared)
  rw [← List.append_nil parts.flatten]
  exact balances.trans next more same

theorem Solitary.squared (solitary : Solitary table start visits session) (alive : Alive table start entries) :
    Squared table start visits session := by
  induction solitary with
  | begun => exact ⟨⟨entries, alive⟩, UInt32.le_refl _, [], .nil, .none fun _ => Iff.rfl, fun _ _ _ => nofun⟩
  | called before alone shares asked done ih => exact ih.called alone shares done
  | outside before step spares ih => exact ih.outside step spares

/-- The pages that the calls of a table have made, its creation among them, are the header, the directories, the
buckets, and the pages that were deleted. -/
theorem Solitary.accounted {store : σ} {events : List Event} {name : String} {compare : K → K → Ordering}
    {hash : K → UInt32} {options : Options} {pool : Pool σ} (run : Session.Run store events start)
    (done : Table.create name compare hash options start.pool = .ok table pool)
    (solitary : Solitary table { start with pool } visits session) :
    ∃ first parts, Leaves (Table.create name compare hash options : Pool.Action σ (Table K V)) start.pool first ∧
      List.Forall₂ Visit.Recorded visits parts ∧ Accounts table session.pages (first ++ parts.flatten) := by
  have answers : Pool.Answers (Table.create name compare hash options) _ (.ok table) pool := done
  obtain ⟨_, rfl, rfl, rfl, founded⟩ := creating run.kept answers
  obtain ⟨⟨entries, alive⟩, next, parts, recorded, balances, dropped⟩ := solitary.squared founded.alive
  have begins : ∀ page, Owns table (Session.pages { start with pool }) page ↔ page = table.header := fun _ =>
    founded.bare.owns_iff
  have made : ∀ page, page ∈ madeIn ([.made table.header] ++ parts.flatten) ↔
      page = table.header ∨ page ∈ madeIn parts.flatten := fun page => by
    rw [madeIn_append]
    exact List.mem_cons
  have gone : droppedIn ([.made table.header] ++ parts.flatten) = droppedIn parts.flatten := droppedIn_append ..
  have header_old : table.header ∉ madeIn parts.flatten := fun there =>
    UInt32.not_lt.mpr (balances.young _ there).1 founded.alive.stores.issued
  refine ⟨_, parts, founded.left, recorded, alive.stores.accounts ?_ (fun page => ?_) ?_ ?_
    fun page answer seen member => ?_⟩
  · rw [madeIn_append]
    exact List.nodup_cons.mpr ⟨header_old, balances.made_once⟩
  · rw [made, gone, ← balances.kept_iff, begins]
  · rw [gone]
    exact balances.apart
  · rw [gone]
    exact balances.dropped_once
  · exact dropped page answer seen (by simpa using member)

omit [RoundTrips K] [RoundTrips V] in
/-- In the records of some calls are the pages that one of them made. -/
theorem mem_madeIn_flatten {parts : List (List Mark)} (recorded : List.Forall₂ Visit.Recorded visits parts) :
    page ∈ madeIn parts.flatten ↔
      ∃ visit ∈ visits, visit.before.next ≤ page.number ∧ page.number < visit.after.next := by
  induction recorded with
  | nil => simp [madeIn]
  | cons first rest ih =>
    rw [List.flatten_cons, madeIn_append, List.mem_append, first.made_iff, ih, List.exists_mem_cons_iff]

omit [BackingStore σ] [PageKeeper σ] [RoundTrips K] [RoundTrips V] in
/-- A bucket of a table that is empty now was dropped, or it is the only one left. -/
theorem Accounts.merged {before after : Pages} (accounts : Accounts table after marks)
    (stores : Stores table before entries) (keeps : Keeps table before after) (one : table.breadth before = 1)
    (listed : (table.branch before 0).isValid = true) (emptied : Stores table after []) (trim : Trim table after [])
    (files : Files table before page) (made : page ∈ madeIn marks) :
    page ∈ droppedIn marks ∨ page = (table.layout after 0).bucket 0 := by
  have small : 0 < table.breadth before := one ▸ Nat.one_pos
  have one_after : table.breadth after = 1 := keeps.breadth.trans one
  rcases (accounts.made_iff page).mp made with header | lists | left | dropped
  · exact absurd header (stores.files_apart files).1
  · refine absurd ?_ (stores.files_apart files).2
    obtain ⟨slot, less, -, here⟩ := lists
    obtain rfl : slot = 0 := by omega
    exact ⟨0, small, listed, (keeps.branch 0 small listed).symm.trans here⟩
  · exact .inr (trim.files_eq emptied one_after left)
  · exact .inl dropped

/-- Two buckets that a split has made become one when they are empty: a page was deleted, and is accounted for. -/
theorem accounted_merged : ∃ (table : Table UInt32 UInt32) (middle session : Session RamStore) (marks : List Mark),
    Stores table middle.pages [(0, 10), (1, 11)] ∧ table.leaf middle.pages 0 ≠ table.leaf middle.pages 1 ∧
      Stores table session.pages [] ∧ Accounts table session.pages marks ∧
      (table.leaf middle.pages 0 ∈ droppedIn marks ∨ table.leaf middle.pages 1 ∈ droppedIn marks) := by
  obtain ⟨pool, first, second, third, table, run, done, inserts, again, paired⟩ := exists_split
  have alive := paired.alive
  have single := paired.single
  have listed := single.listed alive.stores List.mem_cons_self
  obtain ⟨fourth, removes, living, eased⟩ := alive.remove_answered paired.eased paired.agrees 0
  obtain ⟨fifth, last, emptied, -⟩ := living.remove_answered eased paired.agrees 1
  rw [paired.compares] at removes last emptied
  have created : Created table { pool := first, origin := 0 } := .made run _ _ _ _ done
  obtain ⟨-, -, bare⟩ := made_alive run done
  have inserted : Life table { pool := first, origin := 0 } _ { pool := third, origin := 0 } :=
    (Life.begun.inserted 0 10 inserts).inserted 1 11 again
  have removed : Life table { pool := third, origin := 0 } _ { pool := fifth, origin := 0 } :=
    (Life.begun.removed 0 removes).removed 1 last
  obtain ⟨_, still, trim⟩ := ((inserted.removed 0 removes).removed 1 last).trim created.alive created.trim
    (by simp [Deed.Failed])
  obtain rfl := still.stores.eq_nil emptied.stores
  obtain ⟨_, -, keeps⟩ := removed.alive alive
  have shares : Shares table table := .refl alive.stores.configured
  have entered : Solitary table { pool := first, origin := 0 } _ { pool := second, origin := 0 } :=
    Solitary.begun.called (fun _ _ => rfl) shares (.insert 0 10) inserts
  have filled : Solitary table _ _ { pool := third, origin := 0 } :=
    entered.called (fun _ _ => rfl) shares (.insert 1 11) again
  have lessened : Solitary table _ _ { pool := fourth, origin := 0 } :=
    filled.called (fun _ _ => rfl) shares (.remove 0) removes
  have solitary : Solitary table _ _ { pool := fifth, origin := 0 } :=
    lessened.called (fun _ _ => rfl) shares (.remove 1) last
  obtain ⟨begins, parts, -, recorded, accounts⟩ := Solitary.accounted run done solitary
  obtain ⟨-, -, _, recorded_filled, balances, -⟩ := filled.squared created.alive
  -- Each bucket of before was made by one of the insertions: it is still there, or was dropped.
  have stays : ∀ entry ∈ [((0 : UInt32), (10 : UInt32)), (1, 11)],
      table.leaf third.pages (table.hash entry.1) ∈ droppedIn (begins ++ parts.flatten) ∨
        table.leaf third.pages (table.hash entry.1) = (table.layout fifth.pages 0).bucket 0 := by
    intro entry member
    have files := alive.stores.files_leaf member
    have apart := (alive.stores.files_apart files).1
    refine accounts.merged alive.stores keeps single.breadth listed still.stores trim files ?_
    rw [madeIn_append, List.mem_append, mem_madeIn_flatten recorded]
    rcases (balances.kept_iff _).mpr (.inl (owns_iff_kind.mpr (.inr (.inr files)))) with old | made
    · exact absurd (bare.owns_iff.mp old) apart
    obtain ⟨visit, called, range⟩ := (mem_madeIn_flatten recorded_filled).mp made
    exact .inr ⟨visit, List.mem_append_left _ (List.mem_append_left _ called), range⟩
  rw [paired.hashes] at stays
  refine ⟨table, ⟨third, [], [], 0⟩, ⟨fifth, [], [], 0⟩, _, alive.stores, paired.apart, still.stores, accounts, ?_⟩
  rcases stays (0, 10) (by simp) with dropped | same
  · exact .inl dropped
  rcases stays (1, 11) (by simp) with dropped | same_too
  · exact .inr dropped
  exact absurd (same.trans same_too.symm) paired.apart

end PagedIndex.Table
