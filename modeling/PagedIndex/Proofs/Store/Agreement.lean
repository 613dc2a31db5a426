import Mathlib
import PagedIndex.Proofs.Store.Reopening

/-!
# Two stores that agree

A file and a store in memory are asked the same. What the answers have to be is said by the calls made so far: a page
reads as what was last written to it. Both stores give these answers, also when the file is closed and opened again
in between, and they count the same pages. A read answers with a whole page, so what its caller's buffer held before
does not come into it.
-/

namespace PagedIndex

variable {σ : Type}

inductive StoreCall where
  | read (page : PageId)
  | write (page : PageId) (data : Page)
  /-- A file is closed, and opened again. -/
  | reopen (path : String)
  /-- The same, but made if there is none. -/
  | ensure (path : String)

namespace StoreCall

def onPages [BackingStore σ] : StoreCall → EStateM Failure σ (Option Page)
  | read page => do
    let data ← BackingStore.read page
    return some data
  | write page data => do
    BackingStore.write page data
    return none
  | reopen _ | ensure _ => return none

def reopening (opening : EStateM Failure Volume FileHandle) : EStateM Failure FileStore (Option Page) := fun store =>
  match opening store.volume with
  | .ok handle volume => .ok none ⟨volume, handle⟩
  | .error failure volume => .error failure ⟨volume, store.handle⟩

def onFile : StoreCall → EStateM Failure FileStore (Option Page)
  | reopen path => reopening (Volume.openFile path)
  | ensure path => reopening (Volume.ensure path)
  | call => call.onPages

/-- Pages written have a valid number, and what is opened again is the file that was made at `path`. -/
def Proper (path : String) : StoreCall → Prop
  | read _ => True
  | write page _ => page.isValid = true
  | reopen again | ensure again => Place.ofPath again = Place.ofPath path

/-! ### Answers by the calls made so far -/

/-- What was last written to a page; the latest call comes first. -/
def latest (page : PageId) : List StoreCall → Page
  | [] => Page.zero
  | write other data :: before => if other = page then data else latest page before
  | _ :: before => latest page before

/-- One past the highest page written. -/
def pageCount : List StoreCall → Nat
  | [] => 0
  | write page _ :: before => max (pageCount before) (page.number.toNat + 1)
  | _ :: before => pageCount before

def answer (past : List StoreCall) : StoreCall → Option Page
  | read page => some (latest page past)
  | _ => none

def answers (past : List StoreCall) : List StoreCall → List (Option Page)
  | [] => []
  | call :: rest => call.answer past :: answers (call :: past) rest

theorem mapM_answers {serve : StoreCall → EStateM Failure σ (Option Page)} {proper : StoreCall → Prop}
    {keeps : List StoreCall → σ → Prop}
    (step : ∀ {past : List StoreCall} {store : σ} (call : StoreCall), keeps past store → proper call →
      ∃ later, serve call store = .ok (call.answer past) later ∧ keeps (call :: past) later)
    (calls : List StoreCall) : ∀ {past : List StoreCall} {store : σ}, keeps past store →
      (∀ call ∈ calls, proper call) →
      ∃ later, calls.mapM serve store = .ok (answers past calls) later ∧ keeps (calls.reverse ++ past) later := by
  -- Each call that is served becomes a part of the past.
  induction calls with
  | nil =>
    intro past store kept _
    exact ⟨store, rfl, kept⟩
  | cons call rest ih =>
    intro past store kept every
    obtain ⟨next, served, kept_next⟩ := step call kept (every call List.mem_cons_self)
    obtain ⟨last, done, kept_last⟩ := ih kept_next fun other member => every other (List.mem_cons_of_mem _ member)
    refine ⟨last, ?_, ?_⟩
    · rw [List.mapM_cons, answers]
      simp [bind, EStateM.bind, served, done, pure, EStateM.pure]
    · simpa using kept_last

end StoreCall

open StoreCall (latest pageCount answers Proper onFile onPages)

variable {path : String} {past : List StoreCall}

/-! ### The store in memory -/

namespace RamStore

variable {store : RamStore}

structure Keeps (past : List StoreCall) (store : RamStore) : Prop where
  pages : ∀ page, (store.page? page).getD Page.zero = latest page past
  extent : store.extent = pageCount past
  reads : store.refusesReads = false
  writes : store.refusesWrites = false

theorem Keeps.step (call : StoreCall) (keeps : store.Keeps past) (proper : call.Proper path) :
    ∃ later, call.onPages store = .ok (call.answer past) later ∧ Keeps (call :: past) later := by
  cases call with
  | read page =>
    refine ⟨{ store with reads := store.reads + 1 }, ?_, keeps.pages, keeps.extent, keeps.reads, keeps.writes⟩
    show EStateM.bind (RamStore.read page) _ store = _
    simp [EStateM.bind, RamStore.read_eq, keeps.reads, keeps.pages, StoreCall.answer, pure, EStateM.pure]
  | write page data =>
    refine ⟨store.written page data, ?_, fun other => ?_, ?_, keeps.reads, keeps.writes⟩
    · show EStateM.bind (RamStore.write page data) _ store = _
      simp [EStateM.bind, RamStore.write_eq, keeps.writes, written, StoreCall.answer, pure, EStateM.pure]
    · rw [page?_written, latest, ← keeps.pages]
      split <;> rfl
    · show max store.extent _ = max _ _
      rw [keeps.extent]
  | reopen again => exact ⟨store, rfl, keeps.pages, keeps.extent, keeps.reads, keeps.writes⟩
  | ensure again => exact ⟨store, rfl, keeps.pages, keeps.extent, keeps.reads, keeps.writes⟩

theorem empty_keeps : RamStore.empty.Keeps [] where
  pages page := by simp [RamStore.empty, RamStore.page?, latest]
  extent := rfl
  reads := rfl
  writes := rfl

end RamStore

/-! ### The file -/

namespace FileStore

variable {store fresh : FileStore} {page : PageId} {data : Page}

/-- The file ends where its holder takes it to end. -/
structure Exact (store : FileStore) : Prop extends Whole store where
  ends : store.file.length = pageSize * store.handle.bound.toNat

theorem Exact.written (exact_store : store.Exact) (valid : page.isValid = true) :
    (store.written page data).Exact where
  toWhole := exact_store.toWhole.written valid
  ends := by
    have grown : (store.file.write page.number.toNat data).length =
      max store.file.length (pageSize * page.number.toNat + pageSize) := rfl
    rw [file_written, grown, bound_written valid, exact_store.ends, ← Nat.mul_max_mul_left, Nat.mul_add_one]

theorem Exact.opened (exact_store : store.Exact) {again : String}
    (leads : Place.ofPath again = .ok (.file store.handle.name))
    (opened : Volume.openFile again store.volume = .ok fresh.handle fresh.volume) : fresh = store := by
  have span : store.file.span = store.handle.bound.toNat := by
    rw [PageFile.span, exact_store.ends]
    simp only [pageSize]
    omega
  rw [openFile_found leads opened, span, UInt32.ofNat_toNat]

structure Keeps (path : String) (past : List StoreCall) (store : FileStore) : Prop where
  exact_store : store.Exact
  leads : Place.ofPath path = .ok (.file store.handle.name)
  present : (store.volume.file? store.handle.name).isSome
  pages : ∀ page, store.heldPage page = latest page past
  bound : store.handle.bound.toNat = pageCount past

theorem Keeps.reopened {call : StoreCall} {again : String} (keeps : store.Keeps path past)
    (same : Place.ofPath again = Place.ofPath path) (silent : call = .reopen again ∨ call = .ensure again) :
    Volume.openFile again store.volume = .ok store.handle store.volume ∧ store.Keeps path (call :: past) := by
  have leads := same.trans keeps.leads
  obtain ⟨file, found⟩ := Option.isSome_iff_exists.mp keeps.present
  have opened : Volume.openFile again store.volume = .ok ⟨store.handle.name, UInt32.ofNat file.span⟩ store.volume := by
    rw [openFile_eq leads, found]
  -- The pages are counted anew by the length of the file, and it ends with the last page.
  have unchanged : FileStore.mk store.volume ⟨store.handle.name, UInt32.ofNat file.span⟩ = store :=
    keeps.exact_store.opened leads opened
  constructor
  · rw [opened, congrArg FileStore.handle unchanged.symm]
  · obtain rfl | rfl := silent
    all_goals exact ⟨keeps.exact_store, keeps.leads, keeps.present, keeps.pages, keeps.bound⟩

theorem ensure_eq {again : String} (leads : Place.ofPath again = .ok (.file store.handle.name))
    (present : (store.volume.file? store.handle.name).isSome) :
    Volume.ensure again store.volume = Volume.openFile again store.volume := by
  have holds : store.volume.holds again = true := by
    unfold Volume.holds
    rw [leads]
    exact present
  unfold Volume.ensure
  simp only [bind, EStateM.bind, get, getThe, MonadStateOf.get, EStateM.get, holds, if_true]

theorem Keeps.step (call : StoreCall) (keeps : store.Keeps path past) (proper : call.Proper path) :
    ∃ later, call.onFile store = .ok (call.answer past) later ∧ Keeps path (call :: past) later := by
  cases call with
  | read page =>
    refine ⟨store, ?_, keeps.exact_store, keeps.leads, keeps.present, keeps.pages, keeps.bound⟩
    show EStateM.bind (FileStore.read page) _ store = _
    simp [EStateM.bind, keeps.exact_store.toWhole.read_eq, keeps.pages, StoreCall.answer, pure, EStateM.pure]
  | write page data =>
    have valid : page.isValid = true := proper
    refine ⟨store.written page data, ?_, keeps.exact_store.written valid, keeps.leads, ?_, fun other => ?_, ?_⟩
    · show EStateM.bind (FileStore.write page data) _ store = _
      simp only [EStateM.bind, keeps.exact_store.toWhole.write_eq valid]
      rfl
    · simp [written, Volume.file?, Volume.setFile]
    · rw [keeps.exact_store.toWhole.heldPage_written valid, keeps.pages, latest]
    · rw [bound_written valid, keeps.bound, pageCount]
  | reopen again =>
    obtain ⟨opened, kept⟩ := keeps.reopened proper (.inl rfl)
    refine ⟨store, ?_, kept⟩
    show StoreCall.reopening _ store = _
    rw [StoreCall.reopening, opened]
    rfl
  | ensure again =>
    obtain ⟨opened, kept⟩ := keeps.reopened proper (.inr rfl)
    refine ⟨store, ?_, kept⟩
    show StoreCall.reopening _ store = _
    rw [StoreCall.reopening, ensure_eq (proper.trans keeps.leads) keeps.present, opened]
    rfl

theorem create_eq {volume later : Volume} {handle : FileHandle} (made : Volume.create path volume = .ok handle later) :
    Place.ofPath path = .ok (.file handle.name) ∧ handle.bound = 0 ∧ later = volume.setFile handle.name {} := by
  unfold Volume.create at made
  simp only [bind, EStateM.bind, get, getThe, MonadStateOf.get, EStateM.get] at made
  cases leads : Place.ofPath path with
  | error fault =>
    rw [leads] at made
    cases made
  | ok target =>
    rw [leads] at made
    cases target with
    | file name =>
      dsimp only at made
      split at made
      · cases made
      · cases made
        exact ⟨rfl, rfl, rfl⟩
    | directory => cases made
    | slashed name => cases made
    | below name => cases made

theorem create_keeps {volume later : Volume} {handle : FileHandle} (calm : volume.troubles = [])
    (made : Volume.create path volume = .ok handle later) : Keeps path [] ⟨later, handle⟩ := by
  obtain ⟨leads, bound, rfl⟩ := create_eq made
  have file : (FileStore.mk (volume.setFile handle.name {}) handle).file = {} := by
    simp [FileStore.file, Volume.file?, Volume.setFile]
  have nothing : ∀ number, (FileStore.mk (volume.setFile handle.name {}) handle).filePage number = Page.zero := by
    intro number
    rw [filePage, file]
    simp
  have ends : (0 : Nat) = pageSize * handle.bound.toNat := by
    rw [bound]
    rfl
  refine ⟨⟨⟨?_, fun number _ => nothing number, calm⟩, ?_⟩, leads, ?_, fun page => ?_, ?_⟩
  · rw [file]
    exact ends.symm.le
  · rw [file]
    exact ends
  · simp [Volume.file?, Volume.setFile]
  · simp [heldPage, bound, latest]
  · rw [bound]
    rfl

end FileStore

/-! ### Both -/

/-- After any calls both stores have given the right answers and count the same pages, and the file ends with the
last of them, as long as the system refuses no request. -/
theorem stores_agree {volume later : Volume} {handle : FileHandle} (calm : volume.troubles = [])
    (made : Volume.create path volume = .ok handle later) (calls : List StoreCall)
    (proper : ∀ call ∈ calls, call.Proper path) :
    ∃ (file : FileStore) (memory : RamStore) (bound : UInt32),
      calls.mapM onFile ⟨later, handle⟩ = .ok (answers [] calls) file ∧
      calls.mapM onPages RamStore.empty = .ok (answers [] calls) memory ∧
      BackingStore.bound file = .ok bound ∧ BackingStore.bound memory = .ok bound ∧
      bound.toNat = pageCount calls.reverse ∧ file.file.length = file.size ∧ file.size = bound.toNat * pageSize := by
  obtain ⟨file, filed, keeps_file⟩ := StoreCall.mapM_answers FileStore.Keeps.step calls
    (FileStore.create_keeps calm made) proper
  obtain ⟨memory, remembered, keeps_memory⟩ := StoreCall.mapM_answers RamStore.Keeps.step calls
    RamStore.empty_keeps proper
  rw [List.append_nil] at keeps_file keeps_memory
  have small : memory.extent < wordBound := by
    rw [keeps_memory.extent, ← keeps_file.bound]
    exact file.handle.bound.toNat_lt
  have counted : BackingStore.bound memory = .ok file.handle.bound := by
    show RamStore.bound memory = _
    rw [RamStore.bound, if_pos small, keeps_memory.extent, ← keeps_file.bound, UInt32.ofNat_toNat]
    rfl
  refine ⟨file, memory, file.handle.bound, filed, remembered, rfl, counted, keeps_file.bound, ?_, rfl⟩
  rw [keeps_file.exact_store.ends, FileStore.size, Nat.mul_comm]

/-- A page below the only one that was written reads as zeros, in a file that was found again by another path. -/
theorem stores_agree_page_three : ∃ (handle : FileHandle) (volume : Volume) (file : FileStore) (memory : RamStore),
    Volume.create "a" {} = .ok handle volume ∧
      [.write ⟨3⟩ (.filled pageSize 7), .reopen "./a", .read ⟨1⟩, .read ⟨3⟩].mapM onFile ⟨volume, handle⟩ =
        .ok [none, none, some Page.zero, some (.filled pageSize 7)] file ∧
      [.write ⟨3⟩ (.filled pageSize 7), .reopen "./a", .read ⟨1⟩, .read ⟨3⟩].mapM onPages RamStore.empty =
        .ok [none, none, some Page.zero, some (.filled pageSize 7)] memory ∧
      file.file.length = 4 * pageSize := by
  obtain ⟨handle, volume, made⟩ : ∃ handle volume, Volume.create "a" {} = .ok handle volume := ⟨_, _, rfl⟩
  have proper : ∀ call ∈ [.write ⟨3⟩ (.filled pageSize 7), .reopen "./a", .read ⟨1⟩, .read ⟨3⟩],
      Proper "a" call := by
    have again : Place.ofPath "./a" = Place.ofPath "a" := by decide
    simp only [List.forall_mem_cons]
    exact ⟨rfl, again, trivial, trivial, fun _ none => by cases none⟩
  obtain ⟨file, memory, bound, filed, remembered, -, -, extent, length, size⟩ := stores_agree rfl made _ proper
  refine ⟨handle, volume, file, memory, made, filed, remembered, ?_⟩
  rw [length, size, extent]
  rfl

end PagedIndex
