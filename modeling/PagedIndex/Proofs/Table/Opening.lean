import Mathlib
import PagedIndex.Proofs.Table.Operations

/-!
# Making and opening tables

A new table stores nothing. One that is opened again stores what it stored, whatever options it is given now.
-/

namespace PagedIndex.Table

open Pool (Runs keeping holding view amend)

variable {K V σ : Type} [FixedWidth K] [FixedWidth V] [BackingStore σ] [PageKeeper σ]
  {leases : List Lease} {terms : Pool.Terms} {memory : Memory} {name : String} {compare : K → K → Ordering}
  {hash : K → UInt32} {header : PageId} {options : Options} {entries : List (K × V)}

theorem checked_iff : options.check K V = .ok () ↔
    options.headerDepth ≤ maxHeaderDepth ∧ options.directoryDepth ≤ maxDirectoryDepth ∧
      0 < options.bucketLimit K V ∧ options.bucketLimit K V ≤ Bucket.capacity K V := by
  unfold Options.check
  dsimp only
  constructor
  · intro checked
    split at checked
    · cases checked
    · split at checked
      · cases checked
      · split at checked
        · cases checked
        · omega
  · rintro ⟨header, directory, positive, fits⟩
    rw [if_neg (by omega), if_neg (by omega), if_neg (by omega)]
    rfl

theorem check_refuses (unchecked : options.check K V ≠ .ok ()) :
    ∃ error, options.check K V = .error (.error error) := by
  unfold Options.check at unchecked ⊢
  dsimp only at unchecked ⊢
  split
  · exact ⟨_, rfl⟩
  · split
    · exact ⟨_, rfl⟩
    · split
      · exact ⟨_, rfl⟩
      · simp_all [Pure.pure, Except.pure]

theorem configured_ofHeader (checked : options.check K V = .ok ()) :
    (ofHeader name compare hash header options : Table K V).Configured := by
  obtain ⟨_, depth, positive, fits⟩ := checked_iff.mp checked
  exact ⟨depth, positive, fits⟩

/-- The header is so deep, and lists no directory. -/
structure Bare (table : Table K V) (depth : Nat) (pages : Pages) : Prop where
  depth : Header.depthOf (pages.content table.header) = depth
  vacant : ∀ slot < table.breadth pages, (table.branch pages slot).isValid = false

theorem Stores.bare_shown {table : Table K V} {pages seen : Pages} {depth : Nat} (stores : Stores table pages entries)
    (bare : Bare table depth pages) (shown : pages.Shown seen) : Bare table depth seen := by
  obtain ⟨branches, breadths, -⟩ := stores.outline_shown shown
  refine ⟨?_, ?_⟩
  · rw [shown.content _ stores.routes.written]
    exact bare.depth
  · rw [branches, breadths]
    exact bare.vacant

theorem stores_empty {table : Table K V} {pages : Pages} (configured : table.Configured)
    (routes : Header.Routes (pages.content table.header)) (issued : table.header.number < pages.next)
    (vacant : ∀ slot < table.breadth pages, (table.branch pages slot).isValid = false) : Stores table pages [] where
  configured := configured
  routes := routes
  issued := issued
  vacant _ _ _ := rfl
  houses slot small valid := by
    rw [vacant slot small] at valid
    cases valid
  apart slot small _ _ valid := by
    rw [vacant slot small] at valid
    cases valid

/-- What is stored is a matter of the pages, of the hashes and of the header, and not of the limits. -/
theorem Stores.reconfigured {table other : Table K V} {pages : Pages} (stores : Stores table pages entries)
    (configured : other.Configured) (header : other.header = table.header) (hash : other.hash = table.hash) :
    Stores other pages entries := by
  obtain ⟨name, compare, hash, header, depth, size⟩ := table
  obtain ⟨name', compare', hash', header', depth', size'⟩ := other
  dsimp only at header hash
  subst header hash
  exact ⟨configured, stores.routes, stores.issued, stores.vacant, stores.houses, stores.apart⟩

theorem create_runs (checked : options.check K V = .ok ()) (free : memory.pins = 0)
    (room : terms.Room memory 1) :
    Runs leases terms (Table.create name compare hash options : Pool.Action σ (Table K V)) memory
      (fun table later => table = ofHeader name compare hash ⟨memory.next⟩ options ∧ later.pins = memory.pins ∧
        memory.next < later.next ∧ later.next = memory.next + 1 ∧ Stores table later.toPages [] ∧
        Bare table options.headerDepth later.toPages ∧
        ∃ fresh, later = { memory.grow.write ⟨memory.next⟩ fresh with pins := memory.pins })
      (fun later => later = memory) := by
  obtain ⟨shallow, _⟩ := checked_iff.mp checked
  refine Runs.step (Runs.lift checked) ?_
  refine Runs.bind (Runs.new rfl (by simp [free]) room) fun made grown known => ?_
  obtain ⟨header, id⟩ := made
  obtain ⟨rfl, valid, less, rfl⟩ := known
  obtain ⟨fresh, formatted, routes, depth, vacant⟩ := Header.format_ok (memory.content ⟨memory.next⟩) shallow
  dsimp only
  have writes : Runs leases terms (amend (⟨memory.next⟩ : PageId) fun page => do
      return (← Header.format page options.headerDepth).bytes : Pool.Action σ Unit) memory.grow _ (fun _ => False) :=
    Runs.amend fresh (Multiset.mem_cons_self _ _) (bind_of_ok _ formatted)
  have closed : Runs leases terms (keeping (⟨memory.next⟩ : PageId) (amend ⟨memory.next⟩ fun page => do
      return (← Header.format page options.headerDepth).bytes) : Pool.Action σ Unit) memory.grow
      (fun _ later => later = { memory.grow.write ⟨memory.next⟩ fresh with pins := memory.pins })
      fun later => later = memory := by
    refine Runs.keeping memory.pins memory.pins (writes.mono (fun _ later known => ?_) fun _ => False.elim)
    obtain ⟨_, rfl⟩ := known
    exact ⟨rfl, rfl⟩
  refine Runs.bind closed fun _ later known => Runs.pure ?_
  subst known
  let table : Table K V := ofHeader name compare hash ⟨memory.next⟩ options
  let written := memory.grow.write ⟨memory.next⟩ fresh
  have listed : written.content table.header = fresh := by simp [written, table, ofHeader]
  have bare : Bare table options.headerDepth written.toPages := by
    refine ⟨by rw [listed, depth], fun slot small => ?_⟩
    rw [breadth, listed] at small
    rw [branch, listed, vacant slot small]
    rfl
  exact ⟨rfl, rfl, less, rfl,
    stores_empty (configured_ofHeader checked) (listed.symm ▸ routes) less bare.vacant, bare, fresh, rfl⟩

/-- Options that do not pass their check are refused before anything is made. -/
theorem create_any_runs (free : memory.pins = 0) :
    Runs leases ⟨False, True⟩ (Table.create name compare hash options : Pool.Action σ (Table K V)) memory
      (fun table later => table = ofHeader name compare hash ⟨memory.next⟩ options ∧ memory.next < memory.next + 1 ∧
        Stores table later.toPages [] ∧ Bare table options.headerDepth later.toPages ∧
        ∃ fresh, later = { memory.grow.write ⟨memory.next⟩ fresh with pins := memory.pins })
      (fun later => later = memory) := by
  by_cases checked : options.check K V = .ok ()
  · refine (create_runs checked free .of_nothing).mono (fun table later made => ?_) fun _ => id
    obtain ⟨named, _, less, next, stores, bare, written⟩ := made
    exact ⟨named, next ▸ less, stores, bare, written⟩
  · obtain ⟨error, refused⟩ := check_refuses checked
    have refuses : Runs leases ⟨False, True⟩ (liftM (options.check K V) : Pool.Action σ Unit) memory
        (fun _ _ => False) fun later => later = memory := Runs.refuse refused rfl id
    exact Runs.bind refuses fun _ _ => False.elim

theorem attach_runs {table : Table K V} (checked : options.check K V = .ok ())
    (stores : Stores table memory.toPages entries) (free : memory.pins = 0) :
    Runs leases terms (Table.attach name table.compare table.hash table.header options : Pool.Action σ (Table K V))
      memory
      (fun opened later => opened = ofHeader name table.compare table.hash table.header options ∧ later = memory ∧
        Stores opened later.toPages entries)
      (fun later => later = memory) := by
  refine Runs.step (Runs.lift checked) ?_
  have looked : Runs leases terms (holding table.header (view table.header Header.ofBytes) :
      Pool.Action σ (Header pageSize)) memory
      (fun header later => header = ⟨memory.content table.header⟩ ∧ later = memory) fun later => later = memory :=
    Runs.looking stores.issued (by simp [free]) (by simp [free]) stores.routes.written
      (Runs.view _ (Multiset.mem_cons_self _ _) stores.routes.ofBytes)
  refine Runs.step looked (Runs.pure ?_)
  exact ⟨rfl, rfl, stores.reconfigured (configured_ofHeader checked) rfl rfl⟩

end PagedIndex.Table
