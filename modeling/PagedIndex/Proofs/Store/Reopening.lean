import Mathlib
import PagedIndex.Proofs.Store.Reliable

/-!
# Stores that are opened again

A store that is opened again holds what it held. Pages in memory are the same ones for whoever shares them; a
file is found by a path that leads to it, and its pages are counted anew, so that what was loose comes to light.
-/

namespace PagedIndex

open PageKeeper (held Usable Loose Intact)

/-- A kind of stores that may be opened again. -/
class Reopening (σ : Type) [BackingStore σ] [PageKeeper σ] where
  Reopens : σ → σ → Prop
  reopened : ∀ {old fresh : σ}, Reopens old fresh → Usable old →
    Intact fresh ∧ ∀ page, ¬ Loose old page → held fresh page = held old page

instance : Reopening RamStore where
  Reopens old fresh := fresh = old
  reopened same usable := by
    subst same
    exact ⟨⟨usable, fun _ => id⟩, fun _ _ => rfl⟩

/-! ### Files that a path leads to -/

namespace FileStore

variable {store fresh : FileStore} {path : String}

theorem openFile_eq {path name : String} {volume : Volume} (leads : Place.ofPath path = .ok (.file name)) :
    Volume.openFile path volume = match volume.file? name with
      | none => .error (.error (.io .noSuchFile)) volume
      | some file => .ok ⟨name, UInt32.ofNat file.span⟩ volume := by
  unfold Volume.openFile
  simp only [bind, EStateM.bind, get, getThe, MonadStateOf.get, EStateM.get, leads]
  cases volume.file? name <;> rfl

/-- A file that is opened again is the same one, and its pages are counted by its length. -/
theorem openFile_found (leads : Place.ofPath path = .ok (.file store.handle.name))
    (opened : Volume.openFile path store.volume = .ok fresh.handle fresh.volume) :
    fresh = ⟨store.volume, ⟨store.handle.name, UInt32.ofNat store.file.span⟩⟩ := by
  rw [openFile_eq leads] at opened
  cases found : store.volume.file? store.handle.name with
  | none =>
    rw [found] at opened
    cases opened
  | some file =>
    have mine : store.file = file := by rw [FileStore.file, found, Option.getD_some]
    rw [found] at opened
    obtain ⟨volume, handle⟩ := fresh
    cases opened
    rw [mine]

theorem Bounded.opened (bounded : store.Bounded) (leads : Place.ofPath path = .ok (.file store.handle.name))
    (opened : Volume.openFile path store.volume = .ok fresh.handle fresh.volume) :
    Intact fresh ∧ ∀ page, ¬ store.Beyond page → fresh.heldPage page = store.heldPage page := by
  obtain rfl := openFile_found leads opened
  have counted : (UInt32.ofNat store.file.span).toNat = store.file.span := by
    rw [UInt32.toNat_ofNat']
    exact Nat.mod_eq_of_lt bounded.span
  have behind : ∀ page : PageId, UInt32.ofNat store.file.span ≤ page.number →
      store.filePage page.number.toNat = Page.zero := fun page outside => by
    rw [UInt32.le_iff_toNat_le, counted] at outside
    exact bounded.zero _ outside
  refine ⟨⟨⟨bounded.span, bounded.zero⟩, fun page loose => loose.2 (behind page loose.1)⟩, fun page tight => ?_⟩
  -- Where the two ends differ there are only zeros in between, or the page would be loose.
  have fresh_page : FileStore.heldPage ⟨store.volume, ⟨store.handle.name, UInt32.ofNat store.file.span⟩⟩ page =
      store.filePage page.number.toNat := by
    rw [heldPage]
    split
    · rename_i outside
      exact (behind page outside).symm
    · rfl
  rw [fresh_page, heldPage]
  split
  · rename_i outside
    by_contra bytes
    exact tight ⟨outside, bytes⟩
  · rfl

/-- By any path that leads to the file. -/
instance : Reopening FileStore where
  Reopens old fresh := ∃ path, Place.ofPath path = .ok (.file old.handle.name) ∧
    Volume.openFile path old.volume = .ok fresh.handle fresh.volume
  reopened again bounded := by
    obtain ⟨path, leads, opened⟩ := again
    exact bounded.opened leads opened

end FileStore

/-! ### Stores of any kind -/

namespace Medium

variable {σ α : Type}

theorem within_ok {whole : σ → Medium} {part : σ} {action : EStateM Failure σ α} {later : Medium} {value : α}
    (done : within whole part action (whole part) = .ok value later) :
    ∃ rest, action part = .ok value rest ∧ later = whole rest := by
  unfold within at done
  split at done
  · cases done
    exact ⟨_, by assumption, rfl⟩
  · cases done

theorem within_error {whole : σ → Medium} {part : σ} {action : EStateM Failure σ α} {later : Medium}
    {failure : Failure} (failed : within whole part action (whole part) = .error failure later) :
    ∃ rest, action part = .error failure rest ∧ later = whole rest := by
  unfold within at failed
  split at failed
  · cases failed
  · cases failed
    exact ⟨_, by assumption, rfl⟩

def heldPage : Medium → PageId → Page
  | memory store => held store
  | file store => held store
  | broken => fun _ => Page.zero

def Sound : Medium → Prop
  | memory store => Usable store
  | file store => Usable store
  | broken => True

def Beyond : Medium → PageId → Prop
  | memory store => Loose store
  | file store => Loose store
  | broken => fun _ => False

theorem abides_memory {store later : RamStore} {page : PageId} (abides : Abides held Loose store later page) :
    Abides heldPage Beyond (memory store) (memory later) page := ⟨abides.stays, abides.settles⟩

theorem abides_file {store later : FileStore} {page : PageId} (abides : Abides held Loose store later page) :
    Abides heldPage Beyond (file store) (file later) page := ⟨abides.stays, abides.settles⟩

instance : PageKeeper Medium where
  held := heldPage
  Usable := Sound
  Loose := Beyond
  loose_blank {store page} sound loose := by
    match store with
    | memory store => exact PageKeeper.loose_blank (σ := RamStore) sound loose
    | file store => exact PageKeeper.loose_blank (σ := FileStore) sound loose
    | broken => rfl
  read_ok {page data store later} sound done := by
    match store with
    | memory store =>
      obtain ⟨rest, served, rfl⟩ := within_ok done
      exact PageKeeper.read_ok sound served
    | file store =>
      obtain ⟨rest, served, rfl⟩ := within_ok done
      exact PageKeeper.read_ok sound served
    | broken => cases done
  read_error {page failure store later} sound failed := by
    match store with
    | memory store =>
      obtain ⟨rest, lost, rfl⟩ := within_error failed
      exact PageKeeper.read_error sound lost
    | file store =>
      obtain ⟨rest, lost, rfl⟩ := within_error failed
      exact PageKeeper.read_error sound lost
    | broken =>
      cases failed
      exact ⟨sound, rfl, fun _ => id⟩
  write_ok {page data store later} sound valid done := by
    match store with
    | memory store =>
      obtain ⟨rest, served, rfl⟩ := within_ok done
      obtain ⟨sound, holds, tight, others⟩ := PageKeeper.write_ok sound valid served
      exact ⟨sound, holds, tight, fun other differ => abides_memory (others other differ)⟩
    | file store =>
      obtain ⟨rest, served, rfl⟩ := within_ok done
      obtain ⟨sound, holds, tight, others⟩ := PageKeeper.write_ok sound valid served
      exact ⟨sound, holds, tight, fun other differ => abides_file (others other differ)⟩
    | broken => cases done
  write_error {page data failure store later} sound valid failed := by
    match store with
    | memory store =>
      obtain ⟨rest, lost, rfl⟩ := within_error failed
      obtain ⟨sound, others⟩ := PageKeeper.write_error sound valid lost
      exact ⟨sound, fun other differ => abides_memory (others other differ)⟩
    | file store =>
      obtain ⟨rest, lost, rfl⟩ := within_error failed
      obtain ⟨sound, others⟩ := PageKeeper.write_error sound valid lost
      exact ⟨sound, fun other differ => abides_file (others other differ)⟩
    | broken =>
      cases failed
      exact ⟨sound, fun _ _ => ⟨fun _ => rfl, id⟩⟩
  bound_ok {bound store} sound done page outside := by
    match store with
    | memory store => exact PageKeeper.bound_ok (σ := RamStore) sound done page outside
    | file store => exact PageKeeper.bound_ok (σ := FileStore) sound done page outside
    | broken => rfl

/-- The same pages, found again: those in memory, or those in the file that a path leads to. -/
inductive Reopened : Medium → Medium → Prop where
  | memory (store : RamStore) : Reopened (.memory store) (.memory store)
  | file {store fresh : FileStore} {path : String} (leads : Place.ofPath path = .ok (.file store.handle.name))
      (opened : Volume.openFile path store.volume = .ok fresh.handle fresh.volume) :
      Reopened (.file store) (.file fresh)

instance : Reopening Medium where
  Reopens := Reopened
  reopened again sound := by
    cases again with
    | memory store => exact ⟨⟨sound, fun _ => id⟩, fun _ _ => rfl⟩
    | file leads opened =>
      obtain ⟨intact, same⟩ := FileStore.Bounded.opened sound leads opened
      exact ⟨⟨intact.usable, intact.tight⟩, same⟩

end Medium

end PagedIndex
