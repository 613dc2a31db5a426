import Mathlib
import PagedIndex.Proofs.Pool.Calls
import PagedIndex.Proofs.Table.Single

/-!
# The life of a table

A table is used by its callers while other clients use its pool, and the store fails as it likes. As long as
the others leave its pages alone, the table stores a list of entries, and each call does to the list what it
answers; only a removal that fails may have taken the entries out all the same.
-/

namespace PagedIndex

open PageKeeper (Intact)
open Pool (Eased Models)

namespace Table

/-- A call of a table, and what came of it. -/
inductive Deed (K V : Type) where
  | inserted (key : K) (value : V) (answer : Except Error Bool)
  | found (key : K) (answer : Except Error (List V))
  | removed (key : K) (answer : Except Error Bool)

namespace Deed

variable {K V : Type}

/-- What a deed makes of the list of entries, if it was no removal that failed. -/
def after (compare : K → K → Ordering) (entries : List (K × V)) : Deed K V → List (K × V)
  | inserted key value (.ok true) => entries ++ [(key, value)]
  | removed key (.ok _) => without compare key entries
  | _ => entries

/-- An answer is what the list of entries says. -/
def Right (compare : K → K → Ordering) (entries : List (K × V)) : Deed K V → Prop
  | found key (.ok values) => values = under compare key entries
  | removed key (.ok answer) => answer = true ↔ under compare key entries ≠ []
  | _ => True

/-- One answer after the other is what the list says that the deeds before it have made. -/
def AllRight (compare : K → K → Ordering) : List (K × V) → List (Deed K V) → Prop
  | _, [] => True
  | entries, deed :: deeds => deed.Right compare entries ∧ AllRight compare (deed.after compare entries) deeds

theorem AllRight.append {compare : K → K → Ordering} {entries : List (K × V)} {deeds more : List (Deed K V)}
    (right : AllRight compare entries deeds) (rest : AllRight compare (deeds.foldl (after compare) entries) more) :
    AllRight compare entries (deeds ++ more) := by
  induction deeds generalizing entries with
  | nil => exact rest
  | cons first others ih => exact ⟨right.1, ih right.2 rest⟩

theorem allRight_append {compare : K → K → Ordering} {entries : List (K × V)} {deeds : List (Deed K V)}
    {deed : Deed K V} (right : AllRight compare entries deeds)
    (last : deed.Right compare (deeds.foldl (after compare) entries)) : AllRight compare entries (deeds ++ [deed]) :=
  right.append ⟨last, trivial⟩

def Broke : Deed K V → Prop
  | removed _ (.error _) => True
  | _ => False

end Deed

variable {K V σ : Type} [FixedWidth K] [FixedWidth V] [BackingStore σ] [PageKeeper σ] {table : Table K V}
  {start session : Session σ} {deeds : List (Deed K V)} {entries list : List (K × V)} {key : K} {value : V}

/-- What happens to a table from some session on: calls that come to an answer, and the moves of clients that
leave its pages alone. -/
inductive Life (table : Table K V) (start : Session σ) : List (Deed K V) → Session σ → Prop where
  | begun : Life table start [] start
  | inserted {deeds : List (Deed K V)} {session : Session σ} {pool : Pool σ} (before : Life table start deeds session)
      (key : K) (value : V) {answer : Except Error Bool}
      (done : Pool.Answers (table.insert key value) session.pool answer pool) :
      Life table start (deeds ++ [.inserted key value answer]) { session with pool }
  | found {deeds : List (Deed K V)} {session : Session σ} {pool : Pool σ} (before : Life table start deeds session)
      (key : K) {answer : Except Error (List V)} (done : Pool.Answers (table.find key) session.pool answer pool) :
      Life table start (deeds ++ [.found key answer]) { session with pool }
  | removed {deeds : List (Deed K V)} {session : Session σ} {pool : Pool σ} (before : Life table start deeds session)
      (key : K) {answer : Except Error Bool} (done : Pool.Answers (table.remove key) session.pool answer pool) :
      Life table start (deeds ++ [.removed key answer]) { session with pool }
  | outside {deeds : List (Deed K V)} {session later : Session σ} {event : Event}
      (before : Life table start deeds session) (step : session.Step event later)
      (spares : event.Spares (Owns table session.pages)) : Life table start deeds later

/-- A table was made in a session that clients have brought about. -/
inductive Created (table : Table K V) : Session σ → Prop where
  | made {store : σ} {events : List Event} {session : Session σ} (run : Session.Run store events session)
      (name : String) (compare : K → K → Ordering) (hash : K → UInt32) (options : Options) {pool : Pool σ}
      (done : Table.create name compare hash options session.pool = .ok table pool) :
      Created table { session with pool }

/-- The clients' books are in order, and the table stores a list. -/
structure Alive (table : Table K V) (session : Session σ) (entries : List (K × V)) : Prop where
  kept : session.Kept
  stores : Stores table session.pages entries

/-- What making a table has done to a session. -/
structure Established (session : Session σ) (table : Table K V) (options : Options) (pool : Pool σ) : Prop where
  named : table = ofHeader table.name table.compare table.hash ⟨session.pool.next⟩ options
  less : session.pool.next < pool.next
  alive : Alive table { session with pool } []
  bare : Bare table options.headerDepth pool.pages
  spares : session.Spares (fun _ => False) { session with pool }
  left : Pool.Leaves (Table.create table.name table.compare table.hash options : Pool.Action σ (Table K V)) session.pool
    [.made table.header]

omit [BackingStore σ] [PageKeeper σ] [FixedWidth K] [FixedWidth V] in
theorem Bare.owns_iff {depth : Nat} {pages : Pages} (bare : Bare table depth pages) {page : PageId} :
    Owns table pages page ↔ page = table.header := by
  refine ⟨?_, .inl⟩
  rintro (header | ⟨slot, small, valid, _⟩)
  · exact header
  · cases (bare.vacant slot small).symm.trans valid

/-- Making a table either makes one, with a page for its header, or does nothing that is seen. -/
theorem creating (kept : session.Kept) {name : String} {compare : K → K → Ordering}
    {hash : K → UInt32} {options : Options} {answer : Except Error (Table K V)} {pool : Pool σ}
    (done : Pool.Answers (Table.create name compare hash options) session.pool answer pool) :
    Session.Kept { session with pool } ∧ match answer with
      | .ok table => table.name = name ∧ table.compare = compare ∧ table.hash = hash ∧
        Established session table options pool
      | .error _ => session.Lasts { session with pool } ∧ pool.next = session.pool.next := by
  obtain ⟨marks, memory, left, _, models, follows, ends⟩ :=
    (create_any_runs rfl).recorded (kept.models False.elim) done
  cases answer with
  | ok table =>
    obtain ⟨rfl, less, stores, bare, fresh, rfl⟩ := ends
    obtain ⟨kept_later, shown⟩ := kept.called models rfl (UInt32.le_of_lt less)
    have later : pool.next = session.pool.next + 1 := models.next
    obtain rfl : [.made ⟨session.pool.next⟩] = marks := follows.marks
    refine ⟨kept_later, rfl, rfl, rfl, rfl, later ▸ less, ⟨kept_later, stores.shown shown⟩,
      stores.bare_shown bare shown, fun page old _ firm => ?_, left⟩
    obtain ⟨still, same⟩ := Session.lasts_of_models models follows firm (by simp [droppedIn, Mark.dropped?])
    exact ⟨still, same.trans ((Memory.content_write ..).trans (if_neg (ne_of_issued old)))⟩
  | error error =>
    subst ends
    exact ⟨(kept.called models rfl (UInt32.le_refl _)).1, Session.lasts_still models follows⟩

theorem made_alive {store : σ} {events : List Event} {name : String} {compare : K → K → Ordering} {hash : K → UInt32}
    {options : Options} {pool : Pool σ} (run : Session.Run store events session)
    (done : Table.create name compare hash options session.pool = .ok table pool) :
    table = ofHeader name compare hash ⟨session.pool.next⟩ options ∧ Alive table { session with pool } [] ∧
      Bare table options.headerDepth (Session.pages { session with pool }) := by
  have answers : Pool.Answers (Table.create name compare hash options) _ (.ok table) pool := done
  obtain ⟨_, rfl, rfl, rfl, established⟩ := creating run.kept answers
  exact ⟨established.named, established.alive, established.bare⟩

theorem Created.alive (created : Created table start) : Alive table start [] := by
  obtain ⟨run, _, _, _, _, done⟩ := created
  exact (made_alive run done).2.1

/-- With ease a table is made, if the numbers of pages do not run out. -/
theorem create_total {options : Options} (kept : session.Kept) (eased : Eased session.leases session.pool)
    (room : session.pool.next.toNat + 1 < wordBound) (checked : options.check K V = .ok ()) (name : String)
    (compare : K → K → Ordering) (hash : K → UInt32) :
    ∃ (table : Table K V) (pool : Pool σ), Table.create name compare hash options session.pool = .ok table pool ∧
      Eased session.leases pool ∧ pool.next = session.pool.next + 1 := by
  have creates : Pool.Runs session.leases ⟨True, False⟩ (Table.create name compare hash options :
      Pool.Action σ (Table K V)) session.memory _ _ := create_runs checked rfl (.inr room)
  obtain ⟨table, pool, _, done, models, -, -, -, next, -⟩ := creates.total (kept.models fun _ => eased) False.elim
  refine ⟨table, pool, done, models.eased trivial, ?_⟩
  rw [models.next, next]
  rfl

/-! ### Single calls -/

theorem Alive.seen (alive : Alive table session entries) : Stores table session.memory.toPages entries := alive.stores

theorem Alive.served {pool : Pool σ} {memory : Memory} (alive : Alive table session entries)
    (models : Models session.leases False memory pool) (serves : Serves table list session.memory memory) :
    Alive table { session with pool } list ∧ Keeps table session.pages (Session.pages { session with pool }) := by
  obtain ⟨kept, shown⟩ := alive.kept.called models serves.pins serves.keeps.next
  exact ⟨⟨kept, serves.stores.shown shown⟩, serves.stores.keeps_shown serves.keeps shown⟩

/-- The entries that a hash has to share its bucket with, however deep its directory grows. -/
def rivals (table : Table K V) (pages : Pages) (hash : UInt32) (entries : List (K × V)) : Nat :=
  crowd table.hash (table.depthLimit pages hash) hash (table.gathered pages hash entries)

variable [RoundTrips K] [RoundTrips V]

theorem Alive.inserted {pool : Pool σ} {answer : Except Error Bool} (alive : Alive table session entries)
    (done : Pool.Answers (table.insert key value) session.pool answer pool) :
    Alive table { session with pool } (if answer = .ok true then entries ++ [(key, value)] else entries) ∧
      Keeps table session.pages (Session.pages { session with pool }) ∧
      ∀ inserted, answer = .ok inserted → (inserted = false ↔
        table.rivals session.pages (table.hash key) entries = table.sizeLimit session.pages (table.hash key)) := by
  obtain ⟨memory, models, left⟩ := (insert_runs alive.seen rfl .of_nothing).answers (alive.kept.models False.elim) done
  cases answer with
  | ok inserted =>
    obtain ⟨still, keeps⟩ := alive.served models left.serves
    refine ⟨by simpa using still, keeps, ?_⟩
    rintro _ ⟨⟩
    exact left.full_iff
  | error error =>
    obtain ⟨still, keeps⟩ := alive.served models left
    exact ⟨still, keeps, nofun⟩

theorem Alive.grown {pool : Pool σ} {inserted : Bool} (alive : Alive table session entries)
    (done : table.insert key value session.pool = .ok inserted pool) :
    Grown table entries (table.hash key) inserted session.pages (Session.pages { session with pool }) := by
  have answers : Pool.Answers (table.insert key value) session.pool (.ok inserted) pool := done
  obtain ⟨memory, models, left⟩ :=
    (insert_runs alive.seen rfl .of_nothing).answers (alive.kept.models False.elim) answers
  obtain ⟨-, shown⟩ := alive.kept.called models left.serves.pins left.serves.keeps.next
  exact left.grown.shown left.serves.keeps alive.stores left.serves.stores shown

omit [RoundTrips K] [RoundTrips V] in
theorem Alive.found {pool : Pool σ} {answer : Except Error (List V)} (alive : Alive table session entries)
    (done : Pool.Answers (table.find key) session.pool answer pool) :
    Alive table { session with pool } entries ∧ Keeps table session.pages (Session.pages { session with pool }) ∧
      ∀ values, answer = .ok values → values = table.listing session.pages key entries := by
  obtain ⟨memory, models, left⟩ := (find_runs alive.seen rfl key).answers (alive.kept.models False.elim) done
  cases answer with
  | ok values =>
    obtain ⟨right, rfl⟩ := left
    obtain ⟨still, keeps⟩ := alive.served models alive.seen.serves
    refine ⟨still, keeps, ?_⟩
    rintro _ ⟨⟩
    exact right
  | error error =>
    subst left
    obtain ⟨still, keeps⟩ := alive.served models alive.seen.serves
    exact ⟨still, keeps, nofun⟩

omit [RoundTrips K] [RoundTrips V] in
/-- A removal that fails leaves either the list or what a removal makes of it. -/
theorem Alive.removed {pool : Pool σ} {answer : Except Error Bool} (alive : Alive table session entries)
    (done : Pool.Answers (table.remove key) session.pool answer pool) :
    ∃ list, Alive table { session with pool } list ∧
      Keeps table session.pages (Session.pages { session with pool }) ∧
      (Rid table key entries list ∨ (∃ error, answer = .error error) ∧ list = entries) ∧
      (Agrees table.compare table.hash → ∀ removed, answer = .ok removed →
        (removed = true ↔ under table.compare key entries ≠ [])) := by
  obtain ⟨memory, models, left⟩ := (remove_runs alive.seen rfl key).answers (alive.kept.models False.elim) done
  cases answer with
  | ok removed =>
    obtain ⟨right, _, list, rid, serves, _⟩ := left
    obtain ⟨still, keeps⟩ := alive.served models serves
    refine ⟨list, still, keeps, .inl rid, fun agrees _ same => ?_⟩
    cases same
    exact right agrees
  | error error =>
    rcases left with serves | ⟨list, rid, serves⟩
    · obtain ⟨still, keeps⟩ := alive.served models serves
      exact ⟨entries, still, keeps, .inr ⟨⟨error, rfl⟩, rfl⟩, fun _ => nofun⟩
    · obtain ⟨still, keeps⟩ := alive.served models serves
      exact ⟨list, still, keeps, .inl rid, fun _ => nofun⟩

omit [RoundTrips K] [RoundTrips V] in
theorem Alive.lessened {pool : Pool σ} {removed : Bool} (alive : Alive table session entries)
    (done : table.remove key session.pool = .ok removed pool) :
    ∃ list, Alive table { session with pool } list ∧ Keeps table session.pages (Session.pages { session with pool }) ∧
      Lessened table entries list (table.hash key) session.pages (Session.pages { session with pool }) := by
  have answers : Pool.Answers (table.remove key) session.pool (.ok removed) pool := done
  obtain ⟨memory, models, _, _, list, _, serves, lessened⟩ :=
    (remove_runs alive.seen rfl key).answers (alive.kept.models False.elim) answers
  obtain ⟨still, keeps⟩ := alive.served models serves
  obtain ⟨-, shown⟩ := alive.kept.called models serves.pins serves.keeps.next
  exact ⟨list, still, keeps, lessened.shown serves.keeps alive.stores serves.stores shown⟩

omit [RoundTrips K] [RoundTrips V] in
theorem Alive.found_same {pool : Pool σ} {answer : Except Error (List V)} (alive : Alive table session entries)
    (done : Pool.Answers (table.find key) session.pool answer pool) :
    ∀ page, Owns table session.pages page → pool.pages.content page = session.pages.content page := by
  obtain ⟨memory, models, left⟩ := (find_runs alive.seen rfl key).answers (alive.kept.models False.elim) done
  have same : memory = session.memory := by
    cases answer with
    | ok values => exact left.2
    | error error => exact left
  subst same
  exact fun page owns => models.pages.content page (alive.stores.written owns)

omit [RoundTrips K] [RoundTrips V] in
theorem Alive.spared {later : Session σ} {event : Event} (alive : Alive table session entries)
    (step : session.Step event later) (spares : event.Spares (Owns table session.pages)) (page : PageId)
    (owns : Owns table session.pages page) : later.pages.content page = session.pages.content page :=
  (alive.kept.spared step spares page owns (alive.kept.sound.coherent.firm (alive.stores.written owns))).2

omit [RoundTrips K] [RoundTrips V] in
theorem Alive.outside {later : Session σ} {event : Event} (alive : Alive table session entries)
    (step : session.Step event later) (spares : event.Spares (Owns table session.pages)) :
    Alive table later entries ∧ Keeps table session.pages later.pages := by
  have spared := alive.spared step spares
  have more := (alive.kept.moved step).next_le
  obtain ⟨branches, breadths, routing⟩ := outline_congr (spared table.header (.inl rfl))
  exact ⟨⟨(alive.kept.moved step).kept, alive.stores.congr spared more⟩, more, breadths, routing,
    fun _ _ _ => by rw [branches]⟩

/-! ### Calls that are answered -/

theorem Alive.insert_total (alive : Alive table session entries) (eased : Eased session.leases session.pool)
    (room : session.pool.next.toNat + (maxDirectoryDepth + 3) < wordBound) (key : K) (value : V) :
    ∃ inserted pool, Pool.Answers (table.insert key value) session.pool (.ok inserted) pool ∧
      Eased session.leases pool := by
  obtain ⟨inserted, pool, _, done, models, _⟩ :=
    (insert_runs alive.seen rfl (.inr room)).total (alive.kept.models fun _ => eased) False.elim
  exact ⟨inserted, pool, done, models.eased trivial⟩

omit [RoundTrips K] [RoundTrips V] in
theorem Alive.find_total (alive : Alive table session entries) (eased : Eased session.leases session.pool) (key : K) :
    ∃ values pool, Pool.Answers (table.find key) session.pool (.ok values) pool ∧ Eased session.leases pool := by
  obtain ⟨values, pool, _, done, models, _⟩ :=
    (find_runs alive.seen rfl key).total (alive.kept.models fun _ => eased) False.elim
  exact ⟨values, pool, done, models.eased trivial⟩

omit [BackingStore σ] [PageKeeper σ] [RoundTrips K] [RoundTrips V] in
theorem Stores.sizeLimit_pos {pages : Pages} (stores : Stores table pages entries) (hash : UInt32) :
    0 < table.sizeLimit pages hash := by
  by_cases valid : (table.root pages hash).isValid = true
  · obtain ⟨state, limit, houses⟩ := stores.houses _ (stores.route_lt hash) valid
    have there : Houses table.hash pages (table.root pages hash) state limit _ := houses
    rw [(there.limits valid).2, most]
    split
    · rename_i full
      exact (houses.shelves.holds _ ⟨full, 0, state.size_pos, rfl⟩).positive
    · exact stores.configured.positive
  · rw [sizeLimit, if_neg fun both => valid both.1]
    exact stores.configured.positive

/-- With ease an entry is put in just when its rivals leave room for it. -/
theorem Alive.insert_answered (alive : Alive table session entries) (eased : Eased session.leases session.pool)
    (room : session.pool.next.toNat + (maxDirectoryDepth + 3) < wordBound) (key : K) (value : V) :
    ∃ pool, Pool.Answers (table.insert key value) session.pool (.ok (
        table.rivals session.pages (table.hash key) entries != table.sizeLimit session.pages (table.hash key))) pool ∧
      Eased session.leases pool ∧ pool.next.toNat ≤ session.pool.next.toNat + (maxDirectoryDepth + 2) := by
  obtain ⟨inserted, pool, answers, eased⟩ := alive.insert_total eased room key value
  have full := (alive.inserted answers).2.2 inserted rfl
  have made := (alive.grown answers).made
  have known : inserted =
      (table.rivals session.pages (table.hash key) entries != table.sizeLimit session.pages (table.hash key)) := by
    cases inserted with
    | false => simp [full.mp rfl]
    | true => exact (bne_iff_ne.mpr fun same => nomatch full.mpr same).symm
  rw [known] at answers
  exact ⟨pool, answers, eased, made⟩

/-- In a table of one directory all entries are rivals that agree in as many bits as the directory may use. -/
theorem Alive.insert_single {depth size : Nat} (alive : Alive table session entries)
    (single : Single table session.pages depth size) (eased : Eased session.leases session.pool)
    (room : session.pool.next.toNat + (maxDirectoryDepth + 3) < wordBound) (key : K) (value : V) {inserted : Bool}
    (known : (crowd table.hash depth (table.hash key) entries != size) = inserted) :
    ∃ pool, Pool.Answers (table.insert key value) session.pool (.ok inserted) pool ∧
      Alive table { session with pool } (if inserted then entries ++ [(key, value)] else entries) ∧
      Single table pool.pages depth size ∧ Eased session.leases pool ∧
      pool.next.toNat ≤ session.pool.next.toNat + (maxDirectoryDepth + 2) := by
  obtain ⟨pool, answers, eased, made⟩ := alive.insert_answered eased room key value
  rw [rivals, single.gathered_eq alive.stores, single.depthLimit, single.sizeLimit, known] at answers
  obtain ⟨still, keeps, -⟩ := alive.inserted answers
  exact ⟨pool, answers, by simpa using still, single.grown alive.stores (alive.grown answers) keeps, eased, made⟩

theorem Alive.insert_first (alive : Alive table session []) (eased : Eased session.leases session.pool)
    (room : session.pool.next.toNat + (maxDirectoryDepth + 3) < wordBound) (key : K) (value : V) :
    ∃ pool, Pool.Answers (table.insert key value) session.pool (.ok true) pool ∧ Eased session.leases pool := by
  obtain ⟨pool, answers, eased, _⟩ := alive.insert_answered eased room key value
  have roomy : table.rivals session.pages (table.hash key) [] ≠ table.sizeLimit session.pages (table.hash key) :=
    Nat.ne_of_lt (alive.stores.sizeLimit_pos _)
  rw [bne_iff_ne.mpr roomy] at answers
  exact ⟨pool, answers, eased⟩

omit [RoundTrips K] [RoundTrips V] in
theorem Alive.remove_total (alive : Alive table session entries) (eased : Eased session.leases session.pool) (key : K) :
    ∃ removed pool, Pool.Answers (table.remove key) session.pool (.ok removed) pool ∧ Eased session.leases pool := by
  obtain ⟨removed, pool, _, done, models, _⟩ :=
    (remove_runs alive.seen rfl key).total (alive.kept.models fun _ => eased) False.elim
  exact ⟨removed, pool, done, models.eased trivial⟩

omit [RoundTrips K] [RoundTrips V] in
/-- If equal keys have equal hashes, the list says what is answered. -/
theorem Alive.find_answered (alive : Alive table session entries) (eased : Eased session.leases session.pool)
    (agrees : Agrees table.compare table.hash) (key : K) : ∃ pool,
      Pool.Answers (table.find key) session.pool (.ok (under table.compare key entries)) pool ∧
      Alive table { session with pool } entries ∧ Eased session.leases pool := by
  obtain ⟨values, pool, answers, eased⟩ := alive.find_total eased key
  obtain ⟨still, -, right⟩ := alive.found answers
  rw [right values rfl, listing_eq agrees] at answers
  exact ⟨pool, answers, still, eased⟩

omit [RoundTrips K] [RoundTrips V] in
theorem Alive.remove_answered (alive : Alive table session entries) (eased : Eased session.leases session.pool)
    (agrees : Agrees table.compare table.hash) (key : K) : ∃ pool,
      Pool.Answers (table.remove key) session.pool (.ok (decide (under table.compare key entries ≠ []))) pool ∧
      Alive table { session with pool } (without table.compare key entries) ∧ Eased session.leases pool := by
  obtain ⟨removed, pool, answers, eased⟩ := alive.remove_total eased key
  obtain ⟨list, still, -, rid | ⟨⟨_, failed⟩, _⟩, right⟩ := alive.removed answers
  · have known : removed = decide (under table.compare key entries ≠ []) := by
      rw [Bool.eq_iff_iff, decide_eq_true_eq]
      exact right agrees removed rfl
    rw [known] at answers
    rw [rid agrees] at still
    exact ⟨pool, answers, still, eased⟩
  · cases failed

/-! ### Whole lives -/

theorem Life.alive (life : Life table start deeds session) (alive : Alive table start entries) :
    ∃ list, Alive table session list ∧ Keeps table start.pages session.pages := by
  induction life with
  | begun => exact ⟨entries, alive, .refl table _⟩
  | inserted before key value done ih =>
    obtain ⟨list, alive, keeps⟩ := ih
    obtain ⟨still, more, _⟩ := alive.inserted done
    exact ⟨_, still, keeps.trans more⟩
  | found before key done ih =>
    obtain ⟨list, alive, keeps⟩ := ih
    obtain ⟨still, more, _⟩ := alive.found done
    exact ⟨_, still, keeps.trans more⟩
  | removed before key done ih =>
    obtain ⟨list, alive, keeps⟩ := ih
    obtain ⟨left, still, more, _⟩ := alive.removed done
    exact ⟨left, still, keeps.trans more⟩
  | outside before step spares ih =>
    obtain ⟨list, alive, keeps⟩ := ih
    obtain ⟨still, more⟩ := alive.outside step spares
    exact ⟨list, still, keeps.trans more⟩

theorem Life.listed (agrees : Agrees table.compare table.hash) (life : Life table start deeds session)
    (alive : Alive table start entries) (whole : ∀ deed ∈ deeds, ¬ deed.Broke) :
    Deed.AllRight table.compare entries deeds ∧
      Alive table session (deeds.foldl (Deed.after table.compare) entries) := by
  -- Induction on the run: the deeds before the last have made the list that it finds.
  induction life with
  | begun => exact ⟨trivial, alive⟩
  | @inserted deeds session pool before key value answer done ih =>
    obtain ⟨right, alive⟩ := ih fun deed member => whole deed (List.mem_append_left _ member)
    obtain ⟨still, _⟩ := alive.inserted done
    refine ⟨Deed.allRight_append right trivial, ?_⟩
    rw [List.foldl_append]
    match answer with
    | .ok true | .ok false | .error error => exact still
  | @found deeds session pool before key answer done ih =>
    obtain ⟨right, alive⟩ := ih fun deed member => whole deed (List.mem_append_left _ member)
    obtain ⟨still, _, answered⟩ := alive.found done
    rw [List.foldl_append]
    match answer with
    | .ok values =>
      exact ⟨Deed.allRight_append right ((answered values rfl).trans (listing_eq agrees ..)), still⟩
    | .error error => exact ⟨Deed.allRight_append right trivial, still⟩
  | @removed deeds session pool before key answer done ih =>
    obtain ⟨right, alive⟩ := ih fun deed member => whole deed (List.mem_append_left _ member)
    obtain ⟨left, still, _, rid, answered⟩ := alive.removed done
    rw [List.foldl_append]
    match answer with
    | .ok something =>
      rcases rid with rid | ⟨⟨error, ends⟩, _⟩
      · rw [rid agrees] at still
        exact ⟨Deed.allRight_append right (answered agrees something rfl), still⟩
      · cases ends
    | .error error => exact absurd trivial (whole (.removed key (.error error)) (by simp))
  | outside before step spares ih =>
    obtain ⟨right, alive⟩ := ih whole
    exact ⟨right, (alive.outside step spares).1⟩

/-- A table behaves as a list of entries in the order of their insertion: every answer of its life is the one that
the list gives, and the list is what its pages hold. -/
theorem Life.behaves_as_list (created : Created table start) (agrees : Agrees table.compare table.hash)
    (life : Life table start deeds session) (whole : ∀ deed ∈ deeds, ¬ deed.Broke) :
    Deed.AllRight table.compare [] deeds ∧
      Stores table session.pages (deeds.foldl (Deed.after table.compare) []) := by
  obtain ⟨right, alive⟩ := life.listed agrees created.alive whole
  exact ⟨right, alive.stores⟩

theorem agrees_self : Agrees (Ord.compare : UInt32 → UInt32 → Ordering) fun key => key :=
  fun _ _ equal => Std.LawfulEqCmp.compare_eq_iff_eq.mp equal

theorem exists_founded (options : Options) (checked : options.check UInt32 UInt32 = .ok ()) :
    ∃ (pool first : Pool RamStore) (table : Table UInt32 UInt32),
      Pool.create 3 2 RamStore.empty = .ok pool ∧ Session.Run RamStore.empty [] { pool, origin := 0 } ∧
      Eased [] pool ∧ Table.create "t" Ord.compare (fun key => key) options pool = .ok table first ∧
      Eased [] first ∧ first.next = 1 := by
  have intact : Intact RamStore.empty := RamStore.intact_empty
  obtain ⟨pool, made⟩ : ∃ pool : Pool RamStore, Pool.create 3 2 RamStore.empty = .ok pool := ⟨_, rfl⟩
  have run : Session.Run RamStore.empty [] { pool, origin := 0 } := .opened intact rfl made
  obtain ⟨eased, begins⟩ : Eased [] pool ∧ pool.next = 0 := by
    obtain ⟨next, replacer, bound, -, rfl⟩ := Pool.create_eq made
    cases bound
    exact ⟨⟨RamStore.reliable rfl rfl, by simp [Pool.lent], fun _ => (by decide : 0 + 1 < wordBound)⟩, rfl⟩
  have room : pool.next.toNat + 1 < wordBound := by
    rw [begins]
    decide
  obtain ⟨table, first, done, still, next⟩ := create_total run.kept eased room checked "t" Ord.compare fun key => key
  refine ⟨pool, first, table, made, run, eased, done, still, ?_⟩
  rw [show first.next = pool.next + 1 from next, begins]
  rfl

/-- A table with one slot in its header and buckets for one entry, in three frames that nobody else uses. -/
structure Sample (table : Table UInt32 UInt32) (session : Session RamStore) (entries : List (UInt32 × UInt32))
    (depth : Nat) : Prop where
  compares : table.compare = Ord.compare
  hashes : table.hash = fun key => key
  alive : Alive table session entries
  single : Single table session.pages 2 1
  deep : (table.shape session.pages 0).globalDepth = depth
  eased : Eased session.leases session.pool
  few : session.pool.next.toNat ≤ 1 + (maxDirectoryDepth + 2) * entries.length
  alone : session.leases = []
  three : session.pool.size = 3

/-- Two entries of a table have each a bucket of their own, since one split was made for the second one. -/
def Paired (table : Table UInt32 UInt32) (session : Session RamStore) : Prop :=
  Sample table session [(0, 10), (1, 11)] 1

section Sample

variable {table : Table UInt32 UInt32} {session : Session RamStore} {entries : List (UInt32 × UInt32)} {depth : Nat}

theorem Sample.agrees (sample : Sample table session entries depth) : Agrees table.compare table.hash := by
  rw [sample.compares, sample.hashes]
  exact agrees_self

theorem Sample.room (sample : Sample table session entries depth) (few : entries.length ≤ 2) :
    session.pool.next.toNat + (maxDirectoryDepth + 3) < wordBound := by
  have issued := sample.few
  simp only [maxDirectoryDepth, wordBound] at issued ⊢
  omega

theorem Paired.room (paired : Paired table session) :
    session.pool.next.toNat + (maxDirectoryDepth + 3) < wordBound :=
  Sample.room paired (Nat.le_refl 2)

theorem Paired.apart (paired : Paired table session) : table.leaf session.pages 0 ≠ table.leaf session.pages 1 := by
  have apart := paired.single.leaf_ne paired.alive.stores rfl rfl
  rwa [paired.hashes] at apart

/-- An entry is put in unless its hash agrees in two bits with that of another one. -/
theorem Sample.insert (sample : Sample table session entries depth) (few : entries.length ≤ 2) (key value : UInt32)
    (fresh : crowd table.hash 2 (table.hash key) entries ≠ 1) :
    ∃ pool, Pool.Answers (table.insert key value) session.pool (.ok true) pool ∧
      Grows table.hash 1 (table.hash key) entries (table.shape session.pages 0) true (table.shape pool.pages 0) ∧
      Sample table { session with pool } (entries ++ [(key, value)]) (table.shape pool.pages 0).globalDepth := by
  obtain ⟨pool, inserts, alive, single, eased, made⟩ := sample.alive.insert_single sample.single sample.eased
    (sample.room few) key value (bne_iff_ne.mpr fresh)
  have size := (insert_runs sample.alive.seen rfl .of_nothing).size (sample.alive.kept.models False.elim) inserts
  refine ⟨pool, inserts, sample.single.grows sample.alive.stores (sample.alive.grown inserts), sample.compares,
    sample.hashes, alive, single, rfl, eased, ?_, sample.alone, size.trans sample.three⟩
  have issued := sample.few
  change pool.next.toNat ≤ _
  rw [List.length_append, List.length_singleton, Nat.mul_succ]
  omega

/-- The first entry goes into the bucket of a directory of its own. -/
theorem Sample.insert_first (sample : Sample table session [] 0) (key value : UInt32) :
    ∃ pool, Pool.Answers (table.insert key value) session.pool (.ok true) pool ∧
      Sample table { session with pool } [(key, value)] 0 := by
  obtain ⟨pool, inserts, grows, filled⟩ := sample.insert (Nat.zero_le 2) key value Nat.zero_ne_one
  rw [grows.roomy Nat.one_pos, sample.deep] at filled
  exact ⟨pool, inserts, filled⟩

/-- The second entry differs from the first one in the first bit, so that one split makes room for it. -/
theorem Sample.insert_second (sample : Sample table session [(0, 10)] 0) :
    ∃ pool, Pool.Answers (table.insert 1 11) session.pool (.ok true) pool ∧ Paired table { session with pool } := by
  have apart : crowd table.hash 2 (table.hash 1) [((0 : UInt32), (10 : UInt32))] ≠ 1 := by
    rw [sample.hashes]
    decide
  have full : crowd table.hash 0 (table.hash 1) [((0 : UInt32), (10 : UInt32))] = 1 := by
    rw [sample.hashes]
    rfl
  have roomy : crowd table.hash (0 + 1) (table.hash 1) [((0 : UInt32), (10 : UInt32))] < 1 := by
    rw [sample.hashes]
    decide
  obtain ⟨pool, inserts, grows, filled⟩ := sample.insert (Nat.le_succ 1) 1 11 apart
  have formed : (table.shape session.pages 0).Formed :=
    sample.alive.stores.shape_formed (lt_of_lt_of_eq Nat.one_pos sample.single.breadth.symm)
  have below := formed.reach_le_global (table.hash 1)
  rw [sample.deep] at below
  have reach : (table.shape session.pages 0).reach (table.hash 1) = 0 := Nat.le_zero.mp below
  have once := grows.once (by rw [reach]; exact full) (by rw [reach]; exact roomy)
  rw [reach, sample.deep] at once
  rw [once] at filled
  exact ⟨pool, inserts, filled⟩

end Sample

/-- A new table is one without entries. -/
theorem exists_sample : ∃ (pool first : Pool RamStore) (table : Table UInt32 UInt32),
    Session.Run RamStore.empty [] { pool, origin := 0 } ∧
      Table.create "t" Ord.compare (fun key => key) { headerDepth := 0, directoryDepth := 2, bucketSize := some 1 }
        pool = .ok table first ∧
      Sample table { pool := first, origin := 0 } [] 0 := by
  obtain ⟨pool, first, table, opened, run, -, done, eased, begins⟩ :=
    exists_founded { headerDepth := 0, directoryDepth := 2, bucketSize := some 1 } rfl
  obtain ⟨named, (alive : Alive table { pool := first, origin := 0 } []), (bare : Bare table 0 first.pages)⟩ :=
    made_alive run done
  have compares : table.compare = Ord.compare := by rw [named]; rfl
  have hashes : table.hash = fun key => key := by rw [named]; rfl
  have single : Single table first.pages 2 1 := by
    have single := bare.single alive.stores
    rw [named] at single ⊢
    exact single
  have flat : (table.shape first.pages 0).globalDepth = 0 := by
    rw [shape_of_invalid (bare.vacant 0 (lt_of_lt_of_eq Nat.one_pos single.breadth.symm))]
    rfl
  have few : first.next.toNat ≤ 1 := by
    rw [begins]
    exact Nat.le_refl 1
  have three : pool.size = 3 := by
    obtain ⟨_, _, -, -, rfl⟩ := Pool.create_eq opened
    rfl
  have creates : Pool.Answers (Table.create (K := UInt32) (V := UInt32) "t" Ord.compare (fun key => key) _) pool
    (.ok table) first := done
  have size := (create_any_runs rfl).size (run.kept.models False.elim) creates
  exact ⟨pool, first, table, run, done, compares, hashes, alive, single, flat, eased, few, rfl, size.trans three⟩

/-- A bucket for one entry is split when another entry comes. -/
theorem exists_split : ∃ (pool first second third : Pool RamStore) (table : Table UInt32 UInt32),
    Session.Run RamStore.empty [] { pool, origin := 0 } ∧
      Table.create "t" Ord.compare (fun key => key) { headerDepth := 0, directoryDepth := 2, bucketSize := some 1 }
        pool = .ok table first ∧
      Pool.Answers (table.insert 0 10) first (.ok true) second ∧
      Pool.Answers (table.insert 1 11) second (.ok true) third ∧ Paired table { pool := third, origin := 0 } := by
  obtain ⟨pool, first, table, run, done, sample⟩ := exists_sample
  obtain ⟨second, inserts, filled⟩ := sample.insert_first 0 10
  obtain ⟨third, again, paired⟩ := filled.insert_second
  exact ⟨pool, first, second, third, table, run, done, inserts, again, paired⟩

theorem exists_split_life : ∃ (table : Table UInt32 UInt32) (start session : Session RamStore),
    Created table start ∧ Life table start [.inserted 0 10 (.ok true), .inserted 1 11 (.ok true)] session ∧
      Paired table session := by
  obtain ⟨pool, first, second, third, table, run, done, inserts, again, paired⟩ := exists_split
  exact ⟨table, _, _, .made run _ _ _ _ done, (Life.begun.inserted 0 10 inserts).inserted 1 11 again, paired⟩

/-- Two entries are put into buckets of their own, and one of them is taken out again. -/
theorem behaves_as_list_split : ∃ (table : Table UInt32 UInt32) (start middle session : Session RamStore),
    Life table start [.inserted 0 10 (.ok true), .inserted 1 11 (.ok true)] middle ∧
      table.leaf middle.pages 0 ≠ table.leaf middle.pages 1 ∧ Stores table session.pages [(1, 11)] ∧
      Deed.AllRight table.compare ([] : List (UInt32 × UInt32)) [.inserted 0 10 (.ok true), .inserted 1 11 (.ok true),
        .found 0 (.ok [10]), .removed 0 (.ok true), .found 0 (.ok []), .found 1 (.ok [11])] := by
  obtain ⟨table, start, middle, created, life, paired⟩ := exists_split_life
  have compares := paired.compares
  have agrees := paired.agrees
  obtain ⟨_, found, living, eased⟩ := paired.alive.find_answered paired.eased agrees 0
  obtain ⟨_, removed, living, eased⟩ := living.remove_answered eased agrees 0
  obtain ⟨_, gone, living, eased⟩ := living.find_answered eased agrees 0
  obtain ⟨_, left, -, -⟩ := living.find_answered eased agrees 1
  rw [compares] at found removed gone left
  have whole := (((life.found 0 found).removed 0 removed).found 0 gone).found 1 left
  obtain ⟨right, stores⟩ := whole.behaves_as_list created agrees (by simp [Deed.Broke])
  rw [compares] at right stores
  exact ⟨table, start, middle, _, life, paired.apart, stores, by rw [compares]; exact right⟩

end Table

end PagedIndex
