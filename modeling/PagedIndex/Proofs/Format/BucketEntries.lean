import Mathlib
import PagedIndex.Format.Bucket
import PagedIndex.Proofs.Encoding

/-!
# What bucket pages say

A bucket page is read as a list of entries. Each operation on the bytes is one on the list: inserting
appends, erasing and splitting filter.
-/

namespace PagedIndex

namespace Bucket

open Buffer PageKind

variable {K V : Type} [FixedWidth K] [FixedWidth V] {page image : Page} {most index : Nat}
  {entries : List (K × V)}

/-! ### Where entries stand -/

theorem entryStart_succ (index : Nat) :
    entryStart K V (index + 1) = entryStart K V index + entryWidth K V := by
  rw [entryStart, Nat.succ_mul, ← Nat.add_assoc, ← entryStart]

theorem entryStart_add (index gap : Nat) :
    entryStart K V (index + gap) = entryStart K V index + entryWidth K V * gap := by
  rw [entryStart, Nat.add_mul, ← Nat.add_assoc, Nat.mul_comm gap, ← entryStart]

theorem entryStart_mono {low high : Nat} (le : low ≤ high) : entryStart K V low ≤ entryStart K V high :=
  Nat.add_le_add_left (Nat.mul_le_mul_right _ le) _

theorem entry_apart {low high : Nat} (less : low < high) :
    entryStart K V low + entryWidth K V ≤ entryStart K V high := by
  rw [← entryStart_succ]
  exact entryStart_mono less

theorem preamble_le (index : Nat) : 12 ≤ entryStart K V index := Nat.le_add_right _ _

theorem entry_inside (small : index < capacity K V) : entryStart K V index + entryWidth K V ≤ pageSize := by
  have whole : capacity K V * entryWidth K V ≤ pageSize - bucketPreamble := Nat.div_mul_le_self _ _
  have part : (index + 1) * entryWidth K V ≤ capacity K V * entryWidth K V := Nat.mul_le_mul_right _ small
  have room : bucketPreamble + (pageSize - bucketPreamble) = pageSize := rfl
  rw [← entryStart_succ, entryStart]
  omega

def keyAt (K V : Type) [FixedWidth K] [FixedWidth V] (page : Page) (index : Nat) : Outcome K :=
  FixedWidth.load (page.sliceAt (entryStart K V index) (FixedWidth.width K))

def valueAt (K V : Type) [FixedWidth K] [FixedWidth V] (page : Page) (index : Nat) : Outcome V :=
  FixedWidth.load (page.sliceAt (entryStart K V index + FixedWidth.width K) (FixedWidth.width V))

/-- An entry of which both the key and the value can be read. -/
structure EntryAt (page : Page) (index : Nat) (entry : K × V) : Prop where
  key : keyAt K V page index = .ok entry.1
  value : valueAt K V page index = .ok entry.2

theorem EntryAt.congr {later : Page} {source : Nat} {entry : K × V} (entryAt : EntryAt page source entry)
    (same : ∀ i < entryWidth K V,
      later.byteAt (entryStart K V index + i) = page.byteAt (entryStart K V source + i)) :
    EntryAt later index entry where
  key := by
    rw [← entryAt.key, keyAt, keyAt]
    congr 1
    apply ext_byteAt
    intro i small
    rw [byteAt_sliceAt small, byteAt_sliceAt small, same i (Nat.lt_add_right _ small)]
  value := by
    rw [← entryAt.value, valueAt, valueAt]
    congr 1
    apply ext_byteAt
    intro i small
    rw [byteAt_sliceAt small, byteAt_sliceAt small, Nat.add_assoc, Nat.add_assoc,
      same _ (Nat.add_lt_add_left small _)]

/-- The bytes of the size and of the entries of a bucket. -/
def Writable (K V : Type) [FixedWidth K] [FixedWidth V] (most i : Nat) : Prop :=
  (sizeAt ≤ i ∧ i < limitAt) ∨ (bucketPreamble ≤ i ∧ i < entryStart K V most)

theorem writable_size {i : Nat} (above : sizeAt ≤ i) (below : i < sizeAt + 4) : Writable K V most i :=
  .inl ⟨above, below⟩

theorem writable_entry (small : index < most) {i : Nat} (above : entryStart K V index ≤ i)
    (below : i < entryStart K V index + entryWidth K V) : Writable K V most i :=
  .inr ⟨Nat.le_trans (preamble_le index) above, Nat.lt_of_lt_of_le below (entry_apart small)⟩

/-! ### Pages as lists -/

/-- A bucket page that says that it holds these entries, of at most `most`. -/
structure Holds (page : Page) (most : Nat) (entries : List (K × V)) : Prop where
  tagged : PageKind.bucket.Tags page
  positive : 0 < most
  fits : most ≤ capacity K V
  limit_eq : (page.wordAt limitAt).toNat = most
  size_eq : (page.wordAt sizeAt).toNat = entries.length
  length_le : entries.length ≤ most
  entry_at : ∀ index (small : index < entries.length), EntryAt page index entries[index]

variable (holds : Holds page most entries)

include holds

theorem Holds.written : page ≠ Page.zero := holds.tagged.written nofun

theorem Holds.inside (small : index < most) : entryStart K V index + entryWidth K V ≤ pageSize :=
  entry_inside (Nat.lt_of_lt_of_le small holds.fits)

theorem Holds.ofBytes : Bucket.ofBytes page = .ok (⟨page⟩ : Bucket K V pageSize) := by
  rw [Bucket.ofBytes, bind_of_ok _ holds.tagged.expect]
  rfl

theorem Holds.size : Bucket.size (⟨page⟩ : Bucket K V pageSize) = .ok entries.length := by
  rw [Bucket.size, word_eq (by decide), ← holds.size_eq]
  rfl

theorem Holds.limit : Bucket.limit (⟨page⟩ : Bucket K V pageSize) = .ok most := by
  rw [Bucket.limit, word_eq (by decide), ← holds.limit_eq]
  rfl

theorem Holds.isFull : Bucket.isFull (⟨page⟩ : Bucket K V pageSize) = .ok (decide (most ≤ entries.length)) := by
  rw [Bucket.isFull, bind_of_ok _ holds.limit, bind_of_ok _ holds.size]
  rfl

theorem Holds.isEmpty : Bucket.isEmpty (⟨page⟩ : Bucket K V pageSize) = .ok (decide (entries.length = 0)) := by
  rw [Bucket.isEmpty, bind_of_ok _ holds.size]
  rfl

theorem Holds.requireEntry (small : index < entries.length) :
    Bucket.requireEntry (⟨page⟩ : Bucket K V pageSize) index = .ok () := by
  rw [Bucket.requireEntry, bind_of_ok _ holds.size, if_pos small]
  rfl

theorem Holds.key (small : index < entries.length) :
    Bucket.key (⟨page⟩ : Bucket K V pageSize) index = .ok entries[index].1 := by
  have inside := holds.inside (Nat.lt_of_lt_of_le small holds.length_le)
  have reads : entryStart K V index + FixedWidth.width K ≤ pageSize := by
    rw [entryWidth] at inside
    omega
  rw [Bucket.key, bind_of_ok _ (holds.requireEntry small), bind_of_ok _ (slice_eq reads)]
  exact (holds.entry_at index small).key

theorem Holds.value (small : index < entries.length) :
    Bucket.value (⟨page⟩ : Bucket K V pageSize) index = .ok entries[index].2 := by
  have inside := holds.inside (Nat.lt_of_lt_of_le small holds.length_le)
  have reads : entryStart K V index + FixedWidth.width K + FixedWidth.width V ≤ pageSize := by
    rw [entryWidth] at inside
    omega
  rw [Bucket.value, bind_of_ok _ (holds.requireEntry small), bind_of_ok _ (slice_eq reads)]
  exact (holds.entry_at index small).value

theorem Holds.entry (small : index < entries.length) :
    Bucket.entry (⟨page⟩ : Bucket K V pageSize) index = .ok entries[index] := by
  rw [Bucket.entry, bind_of_ok _ (holds.key small), bind_of_ok _ (holds.value small)]
  rfl

/-! ### Going through the entries -/

section Next

variable {before rest : List (K × V)} {entry : K × V}

omit holds in
theorem Holds.next_key (holds : Holds page most (before ++ entry :: rest)) :
    Bucket.key (⟨page⟩ : Bucket K V pageSize) before.length = .ok entry.1 := by
  have small : before.length < (before ++ entry :: rest).length := by simp
  simpa using holds.key small

omit holds in
theorem Holds.next_value (holds : Holds page most (before ++ entry :: rest)) :
    Bucket.value (⟨page⟩ : Bucket K V pageSize) before.length = .ok entry.2 := by
  have small : before.length < (before ++ entry :: rest).length := by simp
  simpa using holds.value small

omit holds in
theorem Holds.next_entry (holds : Holds page most (before ++ entry :: rest)) :
    Bucket.entry (⟨page⟩ : Bucket K V pageSize) before.length = .ok entry := by
  have small : before.length < (before ++ entry :: rest).length := by simp
  simpa using holds.entry small

omit holds in
theorem Holds.passed (holds : Holds page most (before ++ entry :: rest)) :
    Holds page most ((before ++ [entry]) ++ rest) := by
  rwa [List.append_assoc, List.singleton_append]

end Next

/-! ### Looking up -/

omit holds in
theorem lookupFrom_ok (compare : K → K → Ordering) (sought : K) (before rest : List (K × V))
    (holds : Holds page most (before ++ rest)) :
    Bucket.lookupFrom compare sought (⟨page⟩ : Bucket K V pageSize) rest.length before.length =
      .ok ((rest.filter fun entry => compare entry.1 sought = .eq).map (·.2)) := by
  -- Each round moves one entry from `rest` to `before`, whose length is the index.
  induction rest generalizing before with
  | nil => rfl
  | cons entry rest ih =>
    have later := ih (before ++ [entry]) holds.passed
    rw [List.length_append, List.length_singleton] at later
    rw [List.length_cons, Bucket.lookupFrom, bind_of_ok _ holds.next_key]
    by_cases same : compare entry.1 sought = .eq
    · rw [if_pos same, bind_of_ok _ holds.next_value, bind_of_ok _ later,
        List.filter_cons_of_pos (by simpa using same)]
      rfl
    · rw [if_neg same, later, List.filter_cons_of_neg (by simpa using same)]

theorem Holds.lookup (compare : K → K → Ordering) (sought : K) :
    Bucket.lookup (⟨page⟩ : Bucket K V pageSize) compare sought =
      .ok ((entries.filter fun entry => compare entry.1 sought = .eq).map (·.2)) := by
  rw [Bucket.lookup, bind_of_ok _ holds.size]
  exact lookupFrom_ok compare sought [] entries holds

/-! ### Inserting -/

/-- A page whose bytes differ from those of a bucket only in the size and behind its entries is a bucket of
whatever stands there. -/
theorem Holds.rewrite {later : Page} {next : List (K × V)}
    (preamble : ∀ i, (i < sizeAt ∨ limitAt ≤ i) → i < bucketPreamble → later.byteAt i = page.byteAt i)
    (size : later.wordAt sizeAt = UInt32.ofNat next.length) (room : next.length ≤ most)
    (entry_at : ∀ index (small : index < next.length), EntryAt later index next[index]) :
    Holds later most next where
  tagged := (preamble 0 (by decide) (by decide)).trans holds.tagged
  positive := holds.positive
  fits := holds.fits
  limit_eq := by
    rw [← holds.limit_eq]
    refine congrArg UInt32.toNat (wordAt_congr fun i small => preamble _ ?_ ?_)
    · simp only [limitAt]
      omega
    · simp only [limitAt, bucketPreamble]
      omega
  size_eq := by
    have bound := (page.wordAt limitAt).toNat_lt
    rw [holds.limit_eq] at bound
    rw [size, UInt32.toNat_ofNat']
    exact Nat.mod_eq_of_lt (by omega)
  length_le := room
  entry_at := entry_at

theorem Holds.setSize {later : Page} {next : List (K × V)}
    (same : ∀ i < bucketPreamble, later.byteAt i = page.byteAt i) (room : next.length ≤ most)
    (entry_at : ∀ index (small : index < next.length), EntryAt later index next[index]) :
    Holds (later.putWord sizeAt (UInt32.ofNat next.length)) most next := by
  have inside : sizeAt + 4 ≤ pageSize := by decide
  refine holds.rewrite (fun i apart small => ?_) (wordAt_putWord inside) room fun index small => ?_
  · rw [byteAt_putWord_apart inside (by simpa only [sizeAt, limitAt] using apart), same i small]
  · refine (entry_at index small).congr fun i _ => byteAt_putWord_apart inside ?_
    have behind := preamble_le (K := K) (V := V) index
    simp only [sizeAt]
    omega

theorem Holds.insert_full (full : entries.length = most) (key : K) (value : V) :
    Bucket.insert ⟨page⟩ key value = .ok (false, (⟨page⟩ : Bucket K V pageSize)) := by
  rw [Bucket.insert, bind_of_ok _ holds.isFull, decide_eq_true (Nat.le_of_eq full.symm)]
  rfl

theorem Holds.insert [RoundTrips K] [RoundTrips V] (room : entries.length < most) (key : K)
    (value : V) :
    ∃ later, Bucket.insert ⟨page⟩ key value = .ok (true, (⟨later⟩ : Bucket K V pageSize)) ∧
      Holds later most (entries ++ [(key, value)]) := by
  have inside := holds.inside room
  rw [entryWidth] at inside
  let start := entryStart K V entries.length
  have behind : 12 ≤ start := preamble_le _
  have fits_key : start + FixedWidth.width K ≤ pageSize := by omega
  have fits_value : start + FixedWidth.width K + FixedWidth.width V ≤ pageSize := by omega
  obtain ⟨first, stored_key, loaded_key⟩ := RoundTrips.exists_record key
  obtain ⟨second, stored_value, loaded_value⟩ := RoundTrips.exists_record value
  let keyed : Page := page.put start first
  let filled : Page := keyed.put (start + FixedWidth.width K) second
  have untouched : ∀ i < start, filled.byteAt i = page.byteAt i := fun i small =>
    (byteAt_put_apart fits_value (.inl (by omega))).trans (byteAt_put_apart fits_key (.inl small))
  refine ⟨filled.putWord sizeAt (UInt32.ofNat (entries ++ [(key, value)]).length), ?_, ?_⟩
  · have sized : sizeAt + 4 ≤ pageSize := by decide
    rw [Bucket.insert, bind_of_ok _ holds.isFull, decide_eq_false (Nat.not_le.mpr room)]
    change (Bucket.size (⟨page⟩ : Bucket K V pageSize) >>= fun size => _) = _
    rw [bind_of_ok _ holds.size, bind_of_ok _ (amend_eq fits_key (stored_key _)),
      bind_of_ok _ (amend_eq fits_value (stored_value _)), Bucket.setSize, setWord_eq sized, List.length_append]
    rfl
  · refine holds.setSize (fun i small => untouched i (Nat.lt_of_lt_of_le small behind)) ?_ fun index small => ?_
    · rw [List.length_append]
      exact room
    · rw [List.length_append, List.length_singleton] at small
      rcases Nat.lt_succ_iff_lt_or_eq.mp small with old | rfl
      · rw [List.getElem_append_left old]
        refine (holds.entry_at index old).congr fun i within => untouched _ ?_
        have apart : entryStart K V index + entryWidth K V ≤ start := entry_apart old
        omega
      · rw [List.getElem_concat_length rfl]
        constructor
        · have kept : filled.sliceAt start (FixedWidth.width K) = first :=
            (sliceAt_put_apart fits_value (.inl (Nat.le_refl _))).trans (sliceAt_put fits_key)
          rw [keyAt, kept, loaded_key]
        · have kept : filled.sliceAt (start + FixedWidth.width K) (FixedWidth.width V) = second :=
            sliceAt_put fits_value
          rw [valueAt, kept, loaded_value]

theorem Holds.spares_insert (room : entries.length < most) {key : K} {value : V} {answer : Bool}
    {next : Bucket K V pageSize} (done : Bucket.insert ⟨page⟩ key value = .ok (answer, next)) :
    Spares (Writable K V most) page next.bytes := by
  rw [Bucket.insert, bind_of_ok _ holds.isFull, decide_eq_false (Nat.not_le.mpr room)] at done
  change (Bucket.size (⟨page⟩ : Bucket K V pageSize) >>= fun size => _) = _ at done
  rw [bind_of_ok _ holds.size] at done
  obtain ⟨keyed, first, done⟩ := ok_of_bind done
  obtain ⟨filled, second, done⟩ := ok_of_bind done
  obtain ⟨bucket, third, done⟩ := ok_of_bind done
  obtain ⟨bytes, sized, third⟩ := ok_of_bind third
  cases done
  cases third
  have entry := fun i => writable_entry (K := K) (V := V) room (i := i)
  rw [entryWidth] at entry
  refine .trans (.trans (.amend first ?_) (.amend second ?_)) (.setWord sized fun i => writable_size)
  · intro i above below
    exact entry i above (by omega)
  · intro i above below
    exact entry i (by omega) (by omega)

/-! ### Erasing -/

theorem Holds.eraseAt (small : index < entries.length) :
    ∃ later, Bucket.eraseAt ⟨page⟩ index = .ok (⟨later⟩ : Bucket K V pageSize) ∧
      Holds later most (entries.eraseIdx index) := by
  let width := entryWidth K V
  let start := entryStart K V index
  let count := width * (entries.length - index - 1)
  have behind : 12 ≤ start := preamble_le _
  have last : entryStart K V (entries.length - 1) = start + count := by
    rw [← entryStart_add]
    congr 1
    omega
  have ends : entryStart K V (entries.length - 1) + width ≤ pageSize :=
    holds.inside (by have le := holds.length_le; omega)
  have reads : start + width + count ≤ pageSize := by omega
  have writes : start + count ≤ pageSize := by omega
  let moved : Page := page.put start (page.sliceAt (start + width) count)
  have length : (entries.eraseIdx index).length = entries.length - 1 := List.length_eraseIdx_of_lt small
  refine ⟨moved.putWord sizeAt (UInt32.ofNat (entries.eraseIdx index).length), ?_, ?_⟩
  · have sized : sizeAt + 4 ≤ pageSize := by decide
    rw [Bucket.eraseAt, bind_of_ok _ (holds.requireEntry small), bind_of_ok _ holds.size]
    change (page.move (start + width) count start >>= fun bytes => _) = _
    rw [bind_of_ok _ (move_eq reads writes), Bucket.setSize, setWord_eq sized, length]
    rfl
  · refine holds.setSize (fun i little => ?_) ?_ fun other little => ?_
    · exact byteAt_put_apart writes (.inl (Nat.lt_of_lt_of_le little behind))
    · rw [length]
      exact Nat.le_trans (Nat.sub_le ..) holds.length_le
    · rw [length] at little
      rw [List.getElem_eraseIdx]
      by_cases before : other < index
      · rw [dif_pos before]
        have apart : entryStart K V other + width ≤ start := entry_apart before
        exact (holds.entry_at other _).congr fun i within => byteAt_put_apart writes (.inl (by omega))
      · rw [dif_neg before]
        refine (holds.entry_at (other + 1) _).congr fun i within => ?_
        -- the entry moved up by one width, together with all behind it
        have first : start ≤ entryStart K V other := entryStart_mono (Nat.not_lt.mp before)
        have next : entryStart K V (other + 1) = entryStart K V other + width := entryStart_succ other
        have ends : entryStart K V other + width ≤ start + count := by
          rw [← last]
          exact entry_apart little
        rw [byteAt_put writes, if_pos (by omega), byteAt_sliceAt (by omega), next]
        congr 1
        omega

theorem Holds.spares_eraseAt (small : index < entries.length) {next : Bucket K V pageSize}
    (done : Bucket.eraseAt ⟨page⟩ index = .ok next) : Spares (Writable K V most) page next.bytes := by
  rw [Bucket.eraseAt, bind_of_ok _ (holds.requireEntry small), bind_of_ok _ holds.size] at done
  obtain ⟨moved, first, done⟩ := ok_of_bind done
  obtain ⟨bytes, sized, done⟩ := ok_of_bind done
  cases done
  refine .trans (.move first fun i above below => .inr ?_) (.setWord sized fun i => writable_size)
  have last : entryStart K V (entries.length - 1) =
      entryStart K V index + entryWidth K V * (entries.length - index - 1) := by
    rw [← entryStart_add]
    congr 1
    omega
  have ends : entryStart K V (entries.length - 1) ≤ entryStart K V most :=
    entryStart_mono (Nat.le_trans (Nat.sub_le ..) holds.length_le)
  exact ⟨Nat.le_trans (preamble_le index) above, by omega⟩

omit holds in
theorem Holds.erase_next {before rest : List (K × V)} {entry : K × V}
    (holds : Holds page most (before ++ entry :: rest)) :
    ∃ later, Bucket.eraseAt ⟨page⟩ before.length = .ok (⟨later⟩ : Bucket K V pageSize) ∧
      Holds later most (before ++ rest) ∧ Spares (Writable K V most) page later := by
  have small : before.length < (before ++ entry :: rest).length := by simp
  obtain ⟨later, erased, shorter⟩ := holds.eraseAt small
  have spared := holds.spares_eraseAt small erased
  rw [List.eraseIdx_append_of_length_le (Nat.le_refl _), Nat.sub_self, List.eraseIdx_cons_zero] at shorter
  exact ⟨later, erased, shorter, spared⟩

omit holds in
/-- What goes is counted, and nothing is written unless something goes. -/
theorem eraseFrom_ok (compare : K → K → Ordering) (sought : K) (before rest : List (K × V))
    (holds : Holds page most (before ++ rest)) :
    ∃ later, Bucket.eraseFrom compare sought rest.length before.length ⟨page⟩ =
        .ok (rest.countP fun entry => compare entry.1 sought = .eq, (⟨later⟩ : Bucket K V pageSize)) ∧
      Holds later most (before ++ rest.filter fun entry => compare entry.1 sought ≠ .eq) ∧
      Spares (Writable K V most) page later ∧
      ((rest.countP fun entry => compare entry.1 sought = .eq) = 0 → later = page) := by
  -- An entry that is kept goes over to `before`; one that is erased leaves the index where it is.
  induction rest generalizing before page with
  | nil => exact ⟨page, rfl, holds, .refl _ _, fun _ => rfl⟩
  | cons entry rest ih =>
    rw [List.length_cons, Bucket.eraseFrom, bind_of_ok _ holds.next_key]
    by_cases same : compare entry.1 sought = .eq
    · obtain ⟨middle, erased, shorter, first⟩ := holds.erase_next
      obtain ⟨later, done, left, second, _⟩ := ih before shorter
      rw [List.countP_cons_of_pos (by simpa using same), List.filter_cons_of_neg (by simpa using same)]
      refine ⟨later, ?_, left, first.trans second, nofun⟩
      rw [if_pos same, bind_of_ok _ erased, bind_of_ok _ done]
      rfl
    · obtain ⟨later, done, left, spared, still⟩ := ih (before ++ [entry]) holds.passed
      rw [List.length_append, List.length_singleton] at done
      rw [List.countP_cons_of_neg (by simpa using same)]
      refine ⟨later, by rw [if_neg same, done], ?_, spared, still⟩
      rwa [List.append_assoc, List.singleton_append, ← List.filter_cons_of_pos (by simpa using same)] at left

theorem Holds.erase (compare : K → K → Ordering) (sought : K) :
    ∃ later, Bucket.erase ⟨page⟩ compare sought =
        .ok (entries.countP fun entry => compare entry.1 sought = .eq, (⟨later⟩ : Bucket K V pageSize)) ∧
      Holds later most (entries.filter fun entry => compare entry.1 sought ≠ .eq) ∧
      Spares (Writable K V most) page later ∧
      ((entries.countP fun entry => compare entry.1 sought = .eq) = 0 → later = page) := by
  rw [Bucket.erase, bind_of_ok _ holds.size]
  exact eraseFrom_ok compare sought [] entries holds

/-! ### Splitting -/

omit holds in
/-- What is moved fits into an image that has as much room as there are entries left. -/
theorem splitFrom_ok [RoundTrips K] [RoundTrips V] (moves : K → Bool)
    (before rest moved : List (K × V)) (holds : Holds page most (before ++ rest))
    (takes : Holds image most moved) (room : rest.length + moved.length ≤ most) :
    ∃ later filled, Bucket.splitFrom moves rest.length before.length ⟨page⟩ ⟨image⟩ =
        .ok ((⟨later⟩ : Bucket K V pageSize), (⟨filled⟩ : Bucket K V pageSize)) ∧
      Holds later most (before ++ rest.filter fun entry => !moves entry.1) ∧
      Holds filled most (moved ++ rest.filter fun entry => moves entry.1) := by
  -- As in erasing; `room` says that the image takes all entries that may still come.
  induction rest generalizing before moved page image with
  | nil => exact ⟨page, image, rfl, holds, by rwa [List.filter_nil, List.append_nil]⟩
  | cons entry rest ih =>
    obtain ⟨key, value⟩ := entry
    rw [List.length_cons] at room
    rw [List.length_cons, Bucket.splitFrom, bind_of_ok _ holds.next_entry]
    dsimp only
    by_cases goes : moves key = true
    · obtain ⟨larger, inserted, grown⟩ := takes.insert (by omega) key value
      obtain ⟨middle, erased, shorter, _⟩ := holds.erase_next
      obtain ⟨later, filled, done, kept, gone⟩ := ih before (moved ++ [(key, value)]) shorter grown (by simp; omega)
      refine ⟨later, filled, ?_, ?_, ?_⟩
      · rw [if_pos goes, bind_of_ok _ inserted]
        change (Bucket.eraseAt (⟨page⟩ : Bucket K V pageSize) before.length >>= fun bucket => _) = _
        rw [bind_of_ok _ erased, done]
      · rwa [List.filter_cons_of_neg (by simp [goes])]
      · rwa [List.filter_cons_of_pos (by simpa using goes), List.append_cons]
    · obtain ⟨later, filled, done, kept, gone⟩ := ih (before ++ [(key, value)]) moved holds.passed takes (by omega)
      rw [List.length_append, List.length_singleton] at done
      refine ⟨later, filled, ?_, ?_, ?_⟩
      · rw [if_neg goes]
        exact done
      · rwa [List.append_assoc, List.singleton_append, ← List.filter_cons_of_pos (by simp [goes])] at kept
      · rwa [List.filter_cons_of_neg (by simp [goes])]

theorem Holds.split [RoundTrips K] [RoundTrips V] (moves : K → Bool)
    (takes : Holds image most ([] : List (K × V))) :
    ∃ later filled, Bucket.split moves ⟨page⟩ ⟨image⟩ =
        .ok ((⟨later⟩ : Bucket K V pageSize), (⟨filled⟩ : Bucket K V pageSize)) ∧
      Holds later most (entries.filter fun entry => !moves entry.1) ∧
      Holds filled most (entries.filter fun entry => moves entry.1) := by
  rw [Bucket.split, bind_of_ok _ holds.size]
  exact splitFrom_ok moves [] entries [] holds takes holds.length_le

/-! ### Whole buckets -/

omit holds in
theorem collectUp_ok (before rest : List (K × V)) (holds : Holds page most (before ++ rest)) :
    collectUp (Bucket.entry (⟨page⟩ : Bucket K V pageSize)) rest.length before.length = .ok rest := by
  induction rest generalizing before with
  | nil => rfl
  | cons entry rest ih =>
    have later := ih (before ++ [entry]) holds.passed
    rw [List.length_append, List.length_singleton] at later
    rw [List.length_cons, collectUp, bind_of_ok _ holds.next_entry, bind_of_ok _ later]
    rfl

theorem Holds.entries_ok : Bucket.entries (⟨page⟩ : Bucket K V pageSize) = .ok entries := by
  rw [Bucket.entries, bind_of_ok _ holds.size]
  exact collectUp_ok [] entries holds

omit holds in
theorem format_ok (page : Page) {limit : Nat} (positive : 0 < limit) (fits : limit ≤ capacity K V) :
    ∃ later, Bucket.format page limit = .ok (⟨later⟩ : Bucket K V pageSize) ∧
      Holds later limit ([] : List (K × V)) := by
  have reach : bucketPreamble ≤ pageSize := by decide
  have small : limit < 4294967296 := by
    have whole : capacity K V ≤ pageSize - bucketPreamble := Nat.div_le_self _ _
    have page_eq : pageSize - bucketPreamble = 4084 := rfl
    omega
  let later : Page := Vector.mapFinIdx page fun i byte _ => if i < bucketPreamble then freshByte limit i else byte
  have bytes : ∀ i < bucketPreamble, later.byteAt i = freshByte limit i := fun i less =>
    (byteAt_mapFinIdx (freshByte limit) bucketPreamble i reach).trans (if_pos less)
  have limited : later.wordAt limitAt = UInt32.ofNat limit := wordAt_of_bytes fun i less => by
    rw [bytes _ (by simp only [limitAt, bucketPreamble]; omega), freshByte, if_neg (by simp [limitAt]),
      if_pos (Nat.le_add_right _ _), Nat.add_sub_cancel_left]
  have empty : later.wordAt sizeAt = UInt32.ofNat 0 := wordAt_of_bytes fun i less => by
    rw [bytes _ (by simp only [sizeAt, bucketPreamble]; omega), freshByte, if_neg (by simp [sizeAt]),
      if_neg (by simp only [limitAt, sizeAt]; omega), Nat.zero_div]
    rfl
  refine ⟨later, ?_, bytes 0 (by decide), positive, fits, ?_, congrArg UInt32.toNat empty, Nat.zero_le _,
    fun index less => absurd less (Nat.not_lt_zero _)⟩
  · rw [format, if_neg (by omega), if_neg (Nat.not_lt.mpr reach)]
    rfl
  · rw [limited, UInt32.toNat_ofNat']
    exact Nat.mod_eq_of_lt small

end Bucket

end PagedIndex
