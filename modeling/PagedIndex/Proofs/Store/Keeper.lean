import Mathlib
import PagedIndex.Store.Medium
import PagedIndex.Store.Worker

/-!
# Stores that keep their pages

What the pool relies on. A store may refuse any request, and a write that fails may leave anything in place
of the page that was to be written; all other pages stay as they are. There is one exception: bytes that a failed
write has put behind what the store takes for its end are not seen yet, and they come to light when the end moves.
Such a page is loose.
-/

namespace PagedIndex

/-- What is held of a page abides: it stays unless it is loose, and it does not get loose. -/
structure Abides {σ : Type} (held : σ → PageId → Page) (Loose : σ → PageId → Prop) (store later : σ)
    (page : PageId) : Prop where
  stays : ¬ Loose store page → held later page = held store page
  settles : Loose later page → Loose store page

/-- A store that holds a page for every number, and reads and writes just that. -/
class PageKeeper (σ : Type) [BackingStore σ] where
  held : σ → PageId → Page
  /-- The state in which the store has to be found, and which it keeps. -/
  Usable : σ → Prop
  /-- The page reads as zeros, but may read as something else once another one is written. -/
  Loose : σ → PageId → Prop
  loose_blank : ∀ {store : σ} {page : PageId}, Usable store → Loose store page → held store page = Page.zero
  read_ok : ∀ {page : PageId} {data : Page} {store later : σ}, Usable store →
    BackingStore.read page store = .ok data later →
    data = held store page ∧ Usable later ∧ held later = held store ∧ ∀ other, Loose later other → Loose store other
  read_error : ∀ {page : PageId} {failure : Failure} {store later : σ}, Usable store →
    BackingStore.read page store = .error failure later →
    Usable later ∧ held later = held store ∧ ∀ other, Loose later other → Loose store other
  write_ok : ∀ {page : PageId} {data : Page} {store later : σ}, Usable store → page.isValid = true →
    BackingStore.write page data store = .ok () later →
    Usable later ∧ held later page = data ∧ ¬ Loose later page ∧
      ∀ other, page ≠ other → Abides held Loose store later other
  write_error : ∀ {page : PageId} {data : Page} {failure : Failure} {store later : σ}, Usable store →
    page.isValid = true → BackingStore.write page data store = .error failure later →
    Usable later ∧ ∀ other, page ≠ other → Abides held Loose store later other
  bound_ok : ∀ {bound : UInt32} {store : σ}, Usable store → BackingStore.bound store = .ok bound →
    ∀ page : PageId, bound ≤ page.number → held store page = Page.zero

open PageKeeper (held Usable Loose)

/-- A kind of stores in which no write ever leaves anything behind the end. -/
def PageKeeper.Tight (σ : Type) [BackingStore σ] [PageKeeper σ] : Prop :=
  ∀ (store : σ) (page : PageId), ¬ Loose store page

/-- Nothing that failed before is left to come to light. -/
structure PageKeeper.Intact {σ : Type} [BackingStore σ] [PageKeeper σ] (store : σ) : Prop where
  usable : Usable store
  tight : ∀ page, ¬ Loose store page

open PageKeeper (Intact)

namespace Abides

variable {σ : Type} [BackingStore σ] [PageKeeper σ] {store middle later : σ} {page : PageId}

theorem refl (store : σ) (page : PageId) : Abides held Loose store store page := ⟨fun _ => rfl, id⟩

theorem trans (first : Abides held Loose store middle page) (second : Abides held Loose middle later page) :
    Abides held Loose store later page where
  stays tight := (second.stays fun loose => tight (first.settles loose)).trans (first.stays tight)
  settles loose := first.settles (second.settles loose)

end Abides

theorem PageId.room_of_isValid {page : PageId} (valid : page.isValid = true) :
    page.number.toNat + 1 < wordBound := by
  have differ : page.number ≠ 4294967295 := by simpa [isValid, invalid] using valid
  have small := page.number.toNat_lt
  have apart : page.number.toNat ≠ 4294967295 := fun same => differ (UInt32.toNat_inj.mp same)
  simp only [wordBound]
  omega

/-! ### Pages in memory -/

namespace RamStore

variable {page : PageId} {data : Page} {store : RamStore}

theorem read_eq (page : PageId) (store : RamStore) : RamStore.read page store =
    if store.refusesReads then .error (.error (.io .readRefused)) store
    else .ok ((store.page? page).getD Page.zero) { store with reads := store.reads + 1 } := by
  unfold RamStore.read
  simp only [bind, EStateM.bind, get, getThe, MonadStateOf.get, EStateM.get]
  split <;> rfl

def written (store : RamStore) (page : PageId) (data : Page) : RamStore := { store with
  pages := store.pages.insert page data
  extent := max store.extent (page.number.toNat + 1)
  writes := store.writes + 1 }

theorem page?_written (page other : PageId) (data : Page) :
    (store.written page data).page? other = if page = other then some data else store.page? other := by
  simp [written, page?, Std.TreeMap.getElem?_insert]

theorem write_eq (page : PageId) (data : Page) (store : RamStore) : RamStore.write page data store =
    if store.refusesWrites then .error (.error (.io .writeRefused)) store
    else .ok () (store.written page data) := by
  unfold RamStore.write
  simp only [bind, EStateM.bind, get, getThe, MonadStateOf.get, EStateM.get]
  split <;> rfl

/-- Nothing lies behind the end, and the end is a number of a page. -/
structure Bounded (store : RamStore) : Prop where
  extent : store.extent < wordBound
  vacant : ∀ page : PageId, store.extent ≤ page.number.toNat → store.page? page = none

theorem Bounded.bound_eq (bounded : store.Bounded) : store.bound = .ok (UInt32.ofNat store.extent) :=
  if_pos bounded.extent

theorem Bounded.written (bounded : store.Bounded) (valid : page.isValid = true) (data : Page) :
    (store.written page data).Bounded where
  extent := Nat.max_lt.mpr ⟨bounded.extent, PageId.room_of_isValid valid⟩
  vacant other outside := by
    change max store.extent (page.number.toNat + 1) ≤ _ at outside
    have differ : page ≠ other := by
      rintro rfl
      omega
    rw [page?_written, if_neg differ]
    exact bounded.vacant other (by omega)

instance : PageKeeper RamStore where
  held store page := (store.page? page).getD Page.zero
  Usable := Bounded
  Loose _ _ := False
  loose_blank _ loose := loose.elim
  read_ok bounded done := by
    replace done := (read_eq ..).symm.trans done
    split at done
    · cases done
    · cases done
      exact ⟨rfl, ⟨bounded.extent, bounded.vacant⟩, rfl, fun _ => id⟩
  read_error bounded failed := by
    replace failed := (read_eq ..).symm.trans failed
    split at failed
    · cases failed
      exact ⟨bounded, rfl, fun _ => id⟩
    · cases failed
  write_ok {page data store later} bounded valid done := by
    replace done := (write_eq ..).symm.trans done
    split at done
    · cases done
    · cases done
      refine ⟨bounded.written valid data, ?_, not_false, fun other differ => ⟨fun _ => ?_, id⟩⟩
      · rw [page?_written, if_pos rfl]
        rfl
      · rw [page?_written, if_neg differ]
  write_error bounded valid failed := by
    replace failed := (write_eq ..).symm.trans failed
    split at failed
    · cases failed
      exact ⟨bounded, fun _ _ => ⟨fun _ => rfl, id⟩⟩
    · cases failed
  bound_ok {bound store} bounded done page outside := by
    cases bounded.bound_eq.symm.trans done
    have small := bounded.extent
    rw [UInt32.le_iff_toNat_le, UInt32.toNat_ofNat'] at outside
    simp only [wordBound] at small
    rw [bounded.vacant page (by omega)]
    rfl

theorem intact_empty : Intact RamStore.empty := ⟨⟨by decide, fun _ _ => rfl⟩, fun _ => id⟩

end RamStore

/-! ### Pages in files -/

namespace PageFile

variable {file : PageFile} {page count : Nat} {data : Page}

theorem span_write : (file.write page data).span = max file.span (page + 1) := by
  simp only [span, write, pageSize]
  omega

theorem span_writeFront : (file.writeFront page data count).span =
    if count = 0 then file.span else max file.span (page + 1) := by
  unfold writeFront span
  simp only [pageSize]
  split <;> omega

end PageFile

namespace FileStore

variable {page other : PageId} {data : Page} {count : Nat} {store : FileStore}

/-- What a file holds of a page, whatever its holder takes it to span. -/
def filePage (store : FileStore) (number : Nat) : Page := (store.file.pages[number]?).getD Page.zero

/-- The store once the next request has met what becomes of it. -/
def met (store : FileStore) : FileStore :=
  { store with volume := { store.volume with troubles := store.volume.troubles.tail } }

@[simp] theorem file_met : store.met.file = store.file := rfl

@[simp] theorem bound_met : store.met.handle.bound = store.handle.bound := rfl

theorem meet_eq (store : FileStore) : FileStore.meet store = .ok (store.volume.troubles.headD none) store.met := rfl

theorem read_eq (page : PageId) (store : FileStore) : FileStore.read page store =
    if store.handle.bound ≤ page.number then .ok Page.zero store
    else match store.volume.troubles.headD none with
      | some trouble => .error (.error (.io trouble.fault)) store.met
      | none => match store.file.read page.number.toNat with
        | .ok data => .ok data store.met
        | .error failure => .error failure store.met := by
  unfold FileStore.read
  simp only [bind, EStateM.bind, get, getThe, MonadStateOf.get, EStateM.get]
  split
  · rfl
  · rw [EStateM.bind, meet_eq]
    cases store.volume.troubles.headD none with
    | some trouble => rfl
    | none =>
      change (liftM (store.file.read page.number.toNat) : EStateM Failure FileStore Page) store.met = _
      cases store.file.read page.number.toNat <;> rfl

/-- The store after a page of a valid number was written. -/
def written (store : FileStore) (page : PageId) (data : Page) : FileStore where
  volume := store.volume.setFile store.handle.name (store.file.write page.number.toNat data)
  handle := { store.handle with bound := max store.handle.bound (page.number + 1) }

/-- The store after so many bytes of a page were written and the write failed. -/
def marred (store : FileStore) (page : PageId) (data : Page) (count : Nat) : FileStore where
  volume := store.volume.setFile store.handle.name (store.file.writeFront page.number.toNat data count)
  handle := store.handle

theorem write_eq (valid : page.isValid = true) : FileStore.write page data store =
    match store.volume.troubles.headD none with
    | some trouble => .error (.error (.io trouble.fault)) (store.met.marred page data trouble.written)
    | none => .ok () (store.met.written page data) := by
  have succ : page.succ = .ok (page.number + 1) := if_pos (PageId.room_of_isValid valid)
  unfold FileStore.write
  simp only [bind, EStateM.bind, meet_eq]
  cases store.volume.troubles.headD none with
  | some trouble => rfl
  | none =>
    simp only [succ]
    rfl

theorem file_setFile (name : String) (file : PageFile) (volume : Volume) (bound : UInt32) :
    (FileStore.mk (volume.setFile name file) ⟨name, bound⟩).file = file := by
  simp [FileStore.file, Volume.file?, Volume.setFile]

theorem file_written : (store.written page data).file = store.file.write page.number.toNat data :=
  file_setFile ..

theorem file_marred : (store.marred page data count).file = store.file.writeFront page.number.toNat data count :=
  file_setFile ..

theorem filePage_written (number : Nat) : (store.written page data).filePage number =
    if page.number.toNat = number then data else store.filePage number := by
  rw [filePage, file_written, filePage]
  simp only [PageFile.write, Std.TreeMap.getElem?_insert, Std.LawfulEqCmp.compare_eq_iff_eq]
  split <;> rfl

theorem filePage_marred {number : Nat} (differ : page.number.toNat ≠ number) :
    (store.marred page data count).filePage number = store.filePage number := by
  rw [filePage, file_marred, filePage]
  simp only [PageFile.writeFront, Std.TreeMap.getElem?_insert, Std.LawfulEqCmp.compare_eq_iff_eq, if_neg differ]

theorem bound_written (valid : page.isValid = true) : (store.written page data).handle.bound.toNat =
    max store.handle.bound.toNat (page.number.toNat + 1) := by
  have room := PageId.room_of_isValid valid
  have next : (page.number + 1).toNat = page.number.toNat + 1 := by
    rw [UInt32.toNat_add]
    simp only [wordBound] at room
    simp
    omega
  change (if store.handle.bound ≤ page.number + 1 then page.number + 1 else store.handle.bound).toNat = _
  simp only [UInt32.le_iff_toNat_le, next]
  split <;> omega

/-- What the file holds of a page that its holder takes to be in it; zeros for all others. -/
def heldPage (store : FileStore) (page : PageId) : Page :=
  if store.handle.bound ≤ page.number then Page.zero else store.filePage page.number.toNat

/-- The file holds something of a page that its holder takes to lie behind the end. -/
def Beyond (store : FileStore) (page : PageId) : Prop :=
  store.handle.bound ≤ page.number ∧ store.filePage page.number.toNat ≠ Page.zero

/-- The file has no more pages than can be numbered, and is all zeros behind them. -/
structure Bounded (store : FileStore) : Prop where
  span : store.file.span < wordBound
  zero : ∀ number, store.file.span ≤ number → store.filePage number = Page.zero

omit store in
theorem number_ne (differ : page ≠ other) : page.number.toNat ≠ other.number.toNat := by
  intro same
  cases page
  cases other
  exact differ (congrArg PageId.mk (UInt32.toNat_inj.mp same))

theorem Bounded.written (bounded : store.Bounded) (valid : page.isValid = true) :
    (store.written page data).Bounded where
  span := by
    have room := PageId.room_of_isValid valid
    have span := bounded.span
    rw [file_written, PageFile.span_write]
    omega
  zero number outside := by
    rw [file_written, PageFile.span_write] at outside
    rw [filePage_written, if_neg (by omega)]
    exact bounded.zero number (by omega)

theorem Bounded.marred (bounded : store.Bounded) (valid : page.isValid = true) :
    (store.marred page data count).Bounded where
  span := by
    have room := PageId.room_of_isValid valid
    have span := bounded.span
    rw [file_marred, PageFile.span_writeFront]
    split <;> omega
  zero number outside := by
    rw [file_marred, PageFile.span_writeFront] at outside
    by_cases here : page.number.toNat = number
    · -- Only a write of no bytes leaves the page behind the end, and it leaves the page as it was.
      have nothing : count = 0 := by
        by_contra some_bytes
        rw [if_neg some_bytes] at outside
        omega
      subst nothing here
      rw [if_pos rfl] at outside
      have blank := bounded.zero _ outside
      rw [filePage, file_marred]
      simpa [PageFile.writeFront, filePage] using blank
    · rw [filePage_marred here]
      split at outside <;> exact bounded.zero number (by omega)

/-- The end moves over other pages when one is written, and nothing else happens to them. -/
theorem abides_written (valid : page.isValid = true) (differ : page ≠ other) :
    Abides heldPage Beyond store (store.written page data) other := by
  have same : (store.written page data).filePage other.number.toNat = store.filePage other.number.toNat :=
    (filePage_written _).trans (if_neg (number_ne differ))
  have more : store.handle.bound.toNat ≤ (store.written page data).handle.bound.toNat := by
    rw [bound_written valid]
    exact Nat.le_max_left ..
  refine ⟨fun tight => ?_, fun loose => ⟨?_, ?_⟩⟩
  · simp only [heldPage, UInt32.le_iff_toNat_le, same]
    by_cases outside : store.handle.bound.toNat ≤ other.number.toNat
    · have blank : store.filePage other.number.toNat = Page.zero := by
        by_contra bytes
        exact tight ⟨UInt32.le_iff_toNat_le.mpr outside, bytes⟩
      rw [blank, ite_self, ite_self]
    · rw [if_neg outside, if_neg (by omega)]
  · exact UInt32.le_iff_toNat_le.mpr (Nat.le_trans more (UInt32.le_iff_toNat_le.mp loose.1))
  · rw [← same]
    exact loose.2

/-- All bytes of a page are in the file if its write failed after them. -/
theorem filePage_marred_self (whole : pageSize ≤ count) :
    (store.marred page data count).filePage page.number.toNat = data := by
  rw [filePage, file_marred]
  simp only [PageFile.writeFront, Std.TreeMap.getElem?_insert_self, Option.getD_some]
  refine Vector.ext fun i small => ?_
  simp [Nat.lt_of_lt_of_le small whole]

/-- Whatever lies in the file below a page comes to light when that page is written. -/
theorem heldPage_written_below (valid : page.isValid = true) (less : other.number < page.number) :
    (store.written page data).heldPage other = store.filePage other.number.toNat := by
  rw [UInt32.lt_iff_toNat_lt] at less
  have inside : ¬ (store.written page data).handle.bound ≤ other.number := by
    rw [UInt32.le_iff_toNat_le, bound_written valid]
    omega
  rw [heldPage, if_neg inside, filePage_written, if_neg (by omega)]

theorem abides_marred (differ : page ≠ other) : Abides heldPage Beyond store (store.marred page data count) other := by
  have same : (store.marred page data count).filePage other.number.toNat = store.filePage other.number.toNat :=
    filePage_marred (number_ne differ)
  refine ⟨fun _ => ?_, fun loose => ⟨loose.1, ?_⟩⟩
  · rw [heldPage, same]
    rfl
  · rw [← same]
    exact loose.2

theorem heldPage_written (valid : page.isValid = true) : (store.written page data).heldPage page = data ∧
    ¬ (store.written page data).Beyond page := by
  have inside : ¬ (store.written page data).handle.bound ≤ page.number := by
    rw [UInt32.le_iff_toNat_le, bound_written valid]
    omega
  rw [heldPage, if_neg inside, filePage_written, if_pos rfl]
  exact ⟨rfl, fun loose => inside loose.1⟩

theorem Bounded.met (bounded : store.Bounded) : store.met.Bounded := ⟨bounded.span, bounded.zero⟩

theorem abides_met {later : FileStore} (abides : Abides heldPage Beyond store.met later other) :
    Abides heldPage Beyond store later other := ⟨abides.stays, abides.settles⟩

theorem read_served {number : Nat} {found : Page} (done : store.file.read number = .ok found) :
    found = store.filePage number := by
  unfold PageFile.read at done
  split at done
  · cases done
    rfl
  · cases done

instance : PageKeeper FileStore where
  held := heldPage
  Usable := Bounded
  Loose := Beyond
  loose_blank _ loose := if_pos loose.1
  read_ok {page data store later} bounded done := by
    replace done := (read_eq ..).symm.trans done
    by_cases outside : store.handle.bound ≤ page.number
    · rw [if_pos outside] at done
      cases done
      exact ⟨(if_pos outside).symm, bounded, rfl, fun _ => id⟩
    · rw [if_neg outside] at done
      split at done
      · cases done
      · split at done
        · rename_i found
          cases done
          exact ⟨(read_served found).trans (if_neg outside).symm, bounded.met, rfl, fun _ => id⟩
        · cases done
  read_error {page failure store later} bounded failed := by
    replace failed := (read_eq ..).symm.trans failed
    split at failed
    · cases failed
    · split at failed
      · cases failed
        exact ⟨bounded.met, rfl, fun _ => id⟩
      · split at failed
        · cases failed
        · cases failed
          exact ⟨bounded.met, rfl, fun _ => id⟩
  write_ok {page data store later} bounded valid done := by
    replace done := (write_eq valid).symm.trans done
    split at done
    · cases done
    · cases done
      obtain ⟨holds, tight⟩ := heldPage_written valid
      exact ⟨bounded.met.written valid, holds, tight, fun other differ => abides_met (abides_written valid differ)⟩
  write_error {page data failure store later} bounded valid failed := by
    replace failed := (write_eq valid).symm.trans failed
    split at failed
    · cases failed
      exact ⟨bounded.met.marred valid, fun other differ => abides_met (abides_marred differ)⟩
    · cases failed
  bound_ok bounded done page outside := by
    cases done
    exact if_pos outside

/-! ### Files without troubles -/

/-- The file is as long as its holder takes it to be, all zeros from there on, and no request will be refused. -/
structure Whole (store : FileStore) : Prop where
  length : pageSize * store.handle.bound.toNat ≤ store.file.length
  zero : ∀ number, store.handle.bound.toNat ≤ number → store.filePage number = Page.zero
  calm : store.volume.troubles = []

theorem met_of_calm (calm : store.volume.troubles = []) : store.met = store := by
  obtain ⟨⟨files, troubles⟩, handle⟩ := store
  cases calm
  rfl

theorem Whole.read_eq (whole : store.Whole) (page : PageId) :
    FileStore.read page store = .ok (store.heldPage page) store := by
  rw [FileStore.read_eq, heldPage, whole.calm, met_of_calm whole.calm]
  by_cases outside : store.handle.bound ≤ page.number
  · rw [if_pos outside, if_pos outside]
  · rw [if_neg outside, if_neg outside]
    have below : page.number.toNat + 1 ≤ store.handle.bound.toNat := by
      rw [UInt32.not_le, UInt32.lt_iff_toNat_lt] at outside
      exact outside
    have long := Nat.le_trans (Nat.mul_le_mul_left pageSize below) whole.length
    have read : store.file.read page.number.toNat = .ok (store.filePage page.number.toNat) :=
      if_pos (by rwa [Nat.mul_add_one] at long)
    simp only [List.headD_nil, read]

theorem Whole.write_eq (whole : store.Whole) (valid : page.isValid = true) :
    FileStore.write page data store = .ok () (store.written page data) := by
  rw [FileStore.write_eq valid, whole.calm, met_of_calm whole.calm]
  rfl

theorem Whole.written (whole : store.Whole) (valid : page.isValid = true) :
    (store.written page data).Whole where
  length := by
    rw [bound_written valid, file_written]
    have long := whole.length
    have grown : (store.file.write page.number.toNat data).length =
      max store.file.length (pageSize * page.number.toNat + pageSize) := rfl
    rw [grown, ← Nat.mul_max_mul_left, Nat.mul_add_one]
    omega
  zero number outside := by
    rw [bound_written valid] at outside
    rw [filePage_written, if_neg (by omega)]
    exact whole.zero number (by omega)
  calm := whole.calm

theorem Whole.tight (whole : store.Whole) (page : PageId) : ¬ store.Beyond page := fun loose =>
  loose.2 (whole.zero _ (UInt32.le_iff_toNat_le.mp loose.1))

theorem Whole.heldPage_written (whole : store.Whole) (valid : page.isValid = true) (other : PageId) :
    (store.written page data).heldPage other = if page = other then data else store.heldPage other := by
  by_cases same : page = other
  · subst same
    rw [if_pos rfl, (FileStore.heldPage_written valid).1]
  · rw [if_neg same, (abides_written valid same).stays (whole.tight other)]

end FileStore

/-! ### Workers -/

namespace Worker

variable {σ : Type} [BackingStore σ] {worker later : Worker σ} {page : PageId} {data : Page}

theorem perform_ok {wanted : Request} (served : worker.perform wanted = (.ok data, later)) :
    execute wanted worker.store = .ok data later.store := by
  unfold perform at served
  split at served
  · cases served
  · split at served
    · cases served
      assumption
    · cases served
    · cases served

theorem perform_error {wanted : Request} {error : Error}
    (failed : worker.perform wanted = (.error error, later)) :
    (error = .schedulerShutdown ∧ later.store = worker.store) ∨
      ∃ failure, execute wanted worker.store = .error failure later.store ∧
        (error = .schedulerShutdown ∨ failure = .error error) := by
  unfold perform at failed
  split at failed
  · cases failed
    exact .inl ⟨rfl, rfl⟩
  · split at failed
    · cases failed
    · rename_i outcome
      cases failed
      exact .inr ⟨_, outcome, .inr rfl⟩
    · rename_i outcome
      cases failed
      exact .inr ⟨_, outcome, .inl rfl⟩

theorem execute_write_ok {store next : σ} {answer : Page}
    (done : execute (.write page data) store = .ok answer next) :
    BackingStore.write page data store = .ok () next := by
  cases written : BackingStore.write page data store with
  | ok _ between =>
    simp only [execute, bind, EStateM.bind, written] at done
    cases done
    rfl
  | error failure between =>
    simp only [execute, bind, EStateM.bind, written] at done
    cases done

theorem execute_write_error {store next : σ} {failure : Failure}
    (failed : execute (.write page data) store = .error failure next) :
    BackingStore.write page data store = .error failure next := by
  cases written : BackingStore.write page data store with
  | ok _ between =>
    simp only [execute, bind, EStateM.bind, written] at failed
    cases failed
  | error failure between =>
    simp only [execute, bind, EStateM.bind, written] at failed
    cases failed
    rfl

variable [PageKeeper σ]

theorem perform_read_ok (usable : Usable worker.store)
    (served : worker.perform (.read page) = (.ok data, later)) :
    data = held worker.store page ∧ Usable later.store ∧ held later.store = held worker.store ∧
      ∀ other, Loose later.store other → Loose worker.store other :=
  PageKeeper.read_ok usable (perform_ok served)

theorem perform_read_error {error : Error} (usable : Usable worker.store)
    (failed : worker.perform (.read page) = (.error error, later)) :
    Usable later.store ∧ held later.store = held worker.store ∧
      ∀ other, Loose later.store other → Loose worker.store other := by
  rcases perform_error failed with ⟨-, same⟩ | ⟨failure, failed, -⟩
  · rw [same]
    exact ⟨usable, rfl, fun _ => id⟩
  · exact PageKeeper.read_error usable failed

theorem perform_write_ok {answer : Page} (usable : Usable worker.store) (valid : page.isValid = true)
    (served : worker.perform (.write page data) = (.ok answer, later)) :
    Usable later.store ∧ held later.store page = data ∧ ¬ Loose later.store page ∧
      ∀ other, page ≠ other → Abides held Loose worker.store later.store other :=
  PageKeeper.write_ok usable valid (execute_write_ok (perform_ok served))

theorem perform_write_error {error : Error} (usable : Usable worker.store) (valid : page.isValid = true)
    (failed : worker.perform (.write page data) = (.error error, later)) :
    Usable later.store ∧ ∀ other, page ≠ other → Abides held Loose worker.store later.store other := by
  rcases perform_error failed with ⟨-, same⟩ | ⟨failure, failed, -⟩
  · rw [same]
    exact ⟨usable, fun other _ => .refl worker.store other⟩
  · exact PageKeeper.write_error usable valid (execute_write_error failed)

end Worker

end PagedIndex
