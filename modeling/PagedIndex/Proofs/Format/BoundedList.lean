import Mathlib
import PagedIndex.Proofs.Format.BucketEntries
import PagedIndex.Record.Integer

/-!
# Buckets as bounded lists

A bucket page that was formatted answers every sequence of calls like a list of bounded length. Whatever is asked of
it, the bytes beside its size and behind the last entry that it may hold are never written.
-/

namespace PagedIndex.Bucket

open Buffer

variable {K V : Type} [FixedWidth K] [FixedWidth V] {n most : Nat} {page : Page} {entries : List (K × V)}

/-! ### Calls and their answers -/

/-- What may be asked of a bucket page. -/
inductive Call (K V : Type) where
  | reopen
  | size
  | limit
  | isFull
  | isEmpty
  | key (index : Nat)
  | value (index : Nat)
  | entry (index : Nat)
  | lookup (compare : K → K → Ordering) (sought : K)
  | insert (key : K) (value : V)
  | erase (compare : K → K → Ordering) (sought : K)
  | eraseAt (index : Nat)

inductive Reply (K V : Type) where
  | done
  | number (count : Nat)
  | truth (answer : Bool)
  | key (key : K)
  | value (value : V)
  | entry (entry : K × V)
  | values (found : List V)

def Call.run : Call K V → Bucket K V n → Outcome (Reply K V × Bucket K V n)
  | reopen, bucket => do return (.done, ← Bucket.ofBytes bucket.bytes)
  | size, bucket => do return (.number (← bucket.size), bucket)
  | limit, bucket => do return (.number (← bucket.limit), bucket)
  | isFull, bucket => do return (.truth (← bucket.isFull), bucket)
  | isEmpty, bucket => do return (.truth (← bucket.isEmpty), bucket)
  | key index, bucket => do return (.key (← bucket.key index), bucket)
  | value index, bucket => do return (.value (← bucket.value index), bucket)
  | entry index, bucket => do return (.entry (← bucket.entry index), bucket)
  | lookup compare sought, bucket => do return (.values (← bucket.lookup compare sought), bucket)
  | insert k v, bucket => do
    let (inserted, bucket) ← bucket.insert k v
    return (.truth inserted, bucket)
  | erase compare sought, bucket => do
    let (gone, bucket) ← bucket.erase compare sought
    return (.number gone, bucket)
  | eraseAt index, bucket => do return (.done, ← bucket.eraseAt index)

def runAll : List (Call K V) → Bucket K V n → Outcome (List (Reply K V) × Bucket K V n)
  | [], bucket => return ([], bucket)
  | call :: rest, bucket => do
    let (reply, bucket) ← call.run bucket
    let (replies, bucket) ← runAll rest bucket
    return (reply :: replies, bucket)

/-! ### Bounded lists -/

/-- An entry of a list, for whoever asks for one that is there. -/
def nth (entries : List (K × V)) (index : Nat) : Outcome (K × V) :=
  if small : index < entries.length then return entries[index]
  else throw (.violation (.bucketEntry index entries.length))

/-- What a list of at most `most` entries answers, and what it is then. -/
def Call.refer (most : Nat) : Call K V → List (K × V) → Outcome (Reply K V × List (K × V))
  | reopen, entries => return (.done, entries)
  | size, entries => return (.number entries.length, entries)
  | limit, entries => return (.number most, entries)
  | isFull, entries => return (.truth (most ≤ entries.length), entries)
  | isEmpty, entries => return (.truth (entries.length = 0), entries)
  | key index, entries => do return (.key (← nth entries index).1, entries)
  | value index, entries => do return (.value (← nth entries index).2, entries)
  | entry index, entries => do return (.entry (← nth entries index), entries)
  | lookup compare sought, entries =>
    return (.values ((entries.filter fun entry => compare entry.1 sought = .eq).map (·.2)), entries)
  | insert k v, entries =>
    if entries.length < most then return (.truth true, entries ++ [(k, v)]) else return (.truth false, entries)
  | erase compare sought, entries =>
    return (.number (entries.countP fun entry => compare entry.1 sought = .eq),
      entries.filter fun entry => compare entry.1 sought ≠ .eq)
  | eraseAt index, entries => do
    let _ ← nth entries index
    return (.done, entries.eraseIdx index)

def referAll (most : Nat) : List (Call K V) → List (K × V) → Outcome (List (Reply K V) × List (K × V))
  | [], entries => return ([], entries)
  | call :: rest, entries => do
    let (reply, entries) ← call.refer most entries
    let (replies, entries) ← referAll most rest entries
    return (reply :: replies, entries)

omit [FixedWidth K] [FixedWidth V] in
theorem nth_small {index : Nat} (small : index < entries.length) : nth entries index = .ok entries[index] :=
  dif_pos small

omit [FixedWidth K] [FixedWidth V] in
theorem nth_beyond {index : Nat} (large : entries.length ≤ index) :
    nth entries index = .error (.violation (.bucketEntry index entries.length)) :=
  dif_neg (Nat.not_lt.mpr large)

/-! ### One call -/

/-- A bucket answers as a list does, and a call that leaves the list leaves the page. -/
inductive Mirrors (page : Page) (most : Nat) (entries : List (K × V)) :
    Outcome (Reply K V × Bucket K V pageSize) → Outcome (Reply K V × List (K × V)) → Prop where
  | ok {reply : Reply K V} {later : Page} {next : List (K × V)} (holds : Holds later most next)
      (spares : Spares (Writable K V most) page later) (still : next = entries → later = page) :
      Mirrors page most entries (.ok (reply, ⟨later⟩)) (.ok (reply, next))
  | error {index : Nat} (large : entries.length ≤ index) :
      Mirrors page most entries (.error (.violation (.bucketEntry index entries.length)))
        (.error (.violation (.bucketEntry index entries.length)))

section Holds

variable (holds : Holds page most entries)

include holds

theorem Holds.read (reply : Reply K V) : Mirrors page most entries (.ok (reply, ⟨page⟩)) (.ok (reply, entries)) :=
  .ok holds (.refl _ _) fun _ => rfl

theorem Holds.requireEntry_beyond {index : Nat} (large : entries.length ≤ index) :
    Bucket.requireEntry (⟨page⟩ : Bucket K V pageSize) index =
      .error (.violation (.bucketEntry index entries.length)) := by
  rw [Bucket.requireEntry, bind_of_ok _ holds.size, if_neg (Nat.not_lt.mpr large)]
  rfl

theorem Holds.mirrors_insert [RoundTrips K] [RoundTrips V] (key : K) (value : V) :
    Mirrors page most entries (Call.run (.insert key value) ⟨page⟩) (Call.refer most (.insert key value) entries) := by
  rw [Call.run, Call.refer]
  by_cases room : entries.length < most
  · obtain ⟨later, inserted, grown⟩ := holds.insert room key value
    rw [bind_of_ok _ inserted, if_pos room]
    refine .ok grown (holds.spares_insert room inserted) ?_
    intro same
    have longer := congrArg List.length same
    rw [List.length_append, List.length_singleton] at longer
    omega
  · have full : entries.length = most := Nat.le_antisymm holds.length_le (Nat.not_lt.mp room)
    rw [bind_of_ok _ (holds.insert_full full key value), if_neg room]
    exact holds.read _

theorem Holds.mirrors_erase (compare : K → K → Ordering) (sought : K) :
    Mirrors page most entries (Call.run (.erase compare sought) ⟨page⟩)
      (Call.refer most (.erase compare sought) entries) := by
  obtain ⟨later, erased, left, spared, still⟩ := holds.erase compare sought
  rw [Call.run, bind_of_ok _ erased]
  refine .ok left spared fun same => still ?_
  rw [List.countP_eq_zero]
  intro entry member equal
  rw [← same, List.mem_filter] at member
  exact absurd (of_decide_eq_true equal) (of_decide_eq_true member.2)

theorem Holds.mirrors_eraseAt (index : Nat) :
    Mirrors page most entries (Call.run (.eraseAt index) ⟨page⟩) (Call.refer most (.eraseAt index) entries) := by
  rw [Call.run, Call.refer]
  rcases Nat.lt_or_ge index entries.length with small | large
  · obtain ⟨later, erased, shorter⟩ := holds.eraseAt small
    rw [bind_of_ok _ erased, bind_of_ok _ (nth_small small)]
    refine .ok shorter (holds.spares_eraseAt small erased) ?_
    intro same
    have less := congrArg List.length same
    rw [List.length_eraseIdx_of_lt small] at less
    omega
  · rw [nth_beyond large, Bucket.eraseAt, holds.requireEntry_beyond large]
    exact .error large

theorem Holds.mirrors [RoundTrips K] [RoundTrips V] (call : Call K V) :
    Mirrors page most entries (call.run ⟨page⟩) (call.refer most entries) := by
  cases call with
  | reopen =>
    rw [Call.run, bind_of_ok _ holds.ofBytes]
    exact holds.read _
  | size =>
    rw [Call.run, bind_of_ok _ holds.size]
    exact holds.read _
  | limit =>
    rw [Call.run, bind_of_ok _ holds.limit]
    exact holds.read _
  | isFull =>
    rw [Call.run, bind_of_ok _ holds.isFull]
    exact holds.read _
  | isEmpty =>
    rw [Call.run, bind_of_ok _ holds.isEmpty]
    exact holds.read _
  | key index =>
    rw [Call.run, Call.refer]
    rcases Nat.lt_or_ge index entries.length with small | large
    · rw [bind_of_ok _ (holds.key small), bind_of_ok _ (nth_small small)]
      exact holds.read _
    · rw [nth_beyond large, Bucket.key, holds.requireEntry_beyond large]
      exact .error large
  | value index =>
    rw [Call.run, Call.refer]
    rcases Nat.lt_or_ge index entries.length with small | large
    · rw [bind_of_ok _ (holds.value small), bind_of_ok _ (nth_small small)]
      exact holds.read _
    · rw [nth_beyond large, Bucket.value, holds.requireEntry_beyond large]
      exact .error large
  | entry index =>
    rw [Call.run, Call.refer]
    rcases Nat.lt_or_ge index entries.length with small | large
    · rw [bind_of_ok _ (holds.entry small), bind_of_ok _ (nth_small small)]
      exact holds.read _
    · rw [nth_beyond large, Bucket.entry, Bucket.key, holds.requireEntry_beyond large]
      exact .error large
  | lookup compare sought =>
    rw [Call.run, bind_of_ok _ (holds.lookup compare sought)]
    exact holds.read _
  | insert key value => exact holds.mirrors_insert key value
  | erase compare sought => exact holds.mirrors_erase compare sought
  | eraseAt index => exact holds.mirrors_eraseAt index

end Holds

/-! ### Whole runs -/

/-- A bucket page that acts as a bounded list, and differs from the page that was formatted only where it may. -/
structure Acts (first : Bucket K V pageSize) (most : Nat) (bucket : Bucket K V pageSize) (entries : List (K × V)) :
    Prop where
  opens : Bucket.ofBytes bucket.bytes = .ok bucket
  entries_ok : bucket.entries = .ok entries
  length_le : entries.length ≤ most
  fits : most ≤ capacity K V
  spares : Spares (Writable K V most) first.bytes bucket.bytes
  still : ∀ call reply, Call.refer most call entries = .ok (reply, entries) → call.run bucket = .ok (reply, bucket)

/-- A run of calls on a bucket that goes as on a list, up to the first index that is out of range. -/
inductive Agrees (first : Bucket K V pageSize) (most : Nat) :
    Outcome (List (Reply K V) × Bucket K V pageSize) → Outcome (List (Reply K V) × List (K × V)) → Prop where
  | ok {replies : List (Reply K V)} {bucket : Bucket K V pageSize} {entries : List (K × V)}
      (acts : Acts first most bucket entries) : Agrees first most (.ok (replies, bucket)) (.ok (replies, entries))
  | error {index size : Nat} (large : size ≤ index) :
      Agrees first most (.error (.violation (.bucketEntry index size))) (.error (.violation (.bucketEntry index size)))

variable [RoundTrips K] [RoundTrips V]

theorem Holds.acts {first : Page} (holds : Holds page most entries) (spares : Spares (Writable K V most) first page) :
    Acts (⟨first⟩ : Bucket K V pageSize) most ⟨page⟩ entries where
  opens := holds.ofBytes
  entries_ok := holds.entries_ok
  length_le := holds.length_le
  fits := holds.fits
  spares := spares
  still call reply same := by
    have mirrors := holds.mirrors call
    rw [same] at mirrors
    generalize call.run ⟨page⟩ = outcome at mirrors
    cases mirrors with
    | ok _ _ still => rw [still rfl]

theorem Holds.agrees {first : Page} (holds : Holds page most entries)
    (spares : Spares (Writable K V most) first page) (calls : List (Call K V)) :
    Agrees ⟨first⟩ most (runAll calls ⟨page⟩) (referAll most calls entries) := by
  induction calls generalizing page entries with
  | nil => exact .ok (holds.acts spares)
  | cons call rest ih =>
    have mirrors := holds.mirrors call
    rw [runAll, referAll]
    generalize call.run (⟨page⟩ : Bucket K V pageSize) = outcome at mirrors
    generalize call.refer most entries = reference at mirrors
    cases mirrors with
    | error large => exact .error large
    | @ok reply later next kept wrote _ =>
      have further := ih kept (spares.trans wrote)
      change Agrees _ _ (runAll rest ⟨later⟩ >>= fun _ => _) (referAll most rest next >>= fun _ => _)
      generalize runAll rest (⟨later⟩ : Bucket K V pageSize) = outcome at further
      generalize referAll most rest next = reference at further
      cases further with
      | ok acts => exact .ok acts
      | error large => exact .error large

/-- From the moment it is formatted, a bucket page is a list of bounded length. -/
theorem format_agrees {bucket : Bucket K V pageSize} (formatted : Bucket.format page most = .ok bucket)
    (calls : List (Call K V)) : Agrees bucket most (runAll calls bucket) (referAll most calls []) := by
  have accepted : ¬(most = 0 ∨ capacity K V < most) := by
    intro refused
    rw [Bucket.format, if_pos refused] at formatted
    cases formatted
  obtain ⟨later, again, empty⟩ := format_ok (K := K) (V := V) page (show 0 < most by omega) (by omega)
  rw [formatted] at again
  cases again
  exact empty.agrees (.refl _ _) calls

/-- A bucket for two numbers is filled, found full, and emptied again. -/
theorem format_agrees_two : ∃ bucket : Bucket Int32 UInt32 pageSize,
    Bucket.format (Vector.replicate pageSize 7) 2 = .ok bucket ∧
    Agrees bucket 2 (runAll [.insert 5 50, .insert 6 60, .insert 5 70, .erase compare 5, .entry 0] bucket)
      (.ok ([.truth true, .truth true, .truth false, .number 1, .entry (6, 60)], [(6, 60)])) := by
  obtain ⟨later, formatted, _⟩ :=
    format_ok (K := Int32) (V := UInt32) (Vector.replicate pageSize 7) (show 0 < 2 by decide) (by decide)
  exact ⟨⟨later⟩, formatted, format_agrees formatted _⟩

end PagedIndex.Bucket
