import Mathlib
import PagedIndex.Page
import PagedIndex.Proofs.Ascent

/-!
# Reading what was written

Every read of a buffer depends on the bytes of its range alone, and every write changes the bytes of its own.
Inside the buffer both are total.
-/

namespace PagedIndex

namespace Buffer

variable {n m : Nat} {buffer other : Buffer n} {start count i : Nat}

/-! ### Bytes and pieces -/

def byteAt (buffer : Buffer n) (i : Nat) : UInt8 := if inside : i < n then buffer[i] else 0

def sliceAt (buffer : Buffer n) (start count : Nat) : Buffer count :=
  .ofFn fun i => buffer.byteAt (start + i.val)

def wordAt (buffer : Buffer n) (start : Nat) : UInt32 :=
  UInt32.ofNat (ofLittleEndian (buffer.sliceAt start 4))

theorem byte_eq (inside : i < n) : buffer.byte i = .ok (buffer.byteAt i) := by
  rw [byte, byteAt, dif_pos inside, dif_pos inside]

theorem byte_congr (same : other.byteAt i = buffer.byteAt i) : other.byte i = buffer.byte i := by
  by_cases inside : i < n
  · rw [byte_eq inside, byte_eq inside, same]
  · rw [byte, byte, dif_neg inside, dif_neg inside]

theorem slice_eq (inside : start + count ≤ n) :
    buffer.slice start count = .ok (buffer.sliceAt start count) := by
  rw [slice, dif_pos inside, sliceAt]
  congr 2
  funext i
  rw [byteAt, dif_pos (by omega)]

theorem word_eq (inside : start + 4 ≤ n) : buffer.word start = .ok (buffer.wordAt start) := by
  rw [word, slice_eq inside]
  rfl

theorem byteAt_sliceAt (small : i < count) : (buffer.sliceAt start count).byteAt i = buffer.byteAt (start + i) := by
  rw [byteAt, dif_pos small]
  simp [sliceAt]

theorem ext_byteAt (same : ∀ i < n, buffer.byteAt i = other.byteAt i) : buffer = other := by
  apply Vector.ext
  intro i small
  have bytes := same i small
  rwa [byteAt, byteAt, dif_pos small, dif_pos small] at bytes

theorem sliceAt_congr (same : ∀ i < count, buffer.byteAt (start + i) = other.byteAt (start + i)) :
    buffer.sliceAt start count = other.sliceAt start count := by
  apply ext_byteAt
  intro i small
  rw [byteAt_sliceAt small, byteAt_sliceAt small, same i small]

theorem wordAt_congr (same : ∀ i < 4, buffer.byteAt (start + i) = other.byteAt (start + i)) :
    buffer.wordAt start = other.wordAt start := by
  rw [wordAt, sliceAt_congr same, wordAt]

/-! ### Writing -/

/-- `buffer` with `piece` in place of its bytes from `start` on, as far as it reaches. -/
def put (buffer : Buffer n) (start : Nat) (piece : Buffer m) : Buffer n :=
  if inside : start + m ≤ n then buffer.overwrite start piece inside else buffer

def putByte (buffer : Buffer n) (start : Nat) (byte : UInt8) : Buffer n :=
  if inside : start < n then buffer.set start byte else buffer

def putWord (buffer : Buffer n) (start : Nat) (word : UInt32) : Buffer n :=
  buffer.put start (toLittleEndian 4 word.toNat)

theorem splice_eq {piece : Buffer m} (inside : start + m ≤ n) :
    buffer.splice start piece = .ok (buffer.put start piece) := by
  rw [splice, dif_pos inside, put, dif_pos inside]

theorem setByte_eq {byte : UInt8} (inside : start < n) :
    buffer.setByte start byte = .ok (buffer.putByte start byte) := by
  rw [setByte, dif_pos inside, putByte, dif_pos inside]

theorem setWord_eq {word : UInt32} (inside : start + 4 ≤ n) :
    buffer.setWord start word = .ok (buffer.putWord start word) :=
  splice_eq inside

theorem move_eq {source target : Nat} (reads : source + count ≤ n) (writes : target + count ≤ n) :
    buffer.move source count target = .ok (buffer.put target (buffer.sliceAt source count)) := by
  rw [move, slice_eq reads]
  exact splice_eq writes

theorem amend_eq {change : Buffer count → Outcome (Buffer count)} {piece : Buffer count} (inside : start + count ≤ n)
    (changed : change (buffer.sliceAt start count) = .ok piece) :
    buffer.amend start count change = .ok (buffer.put start piece) := by
  rw [amend, slice_eq inside, bind_of_ok _ rfl, bind_of_ok _ changed, splice_eq inside]

theorem byteAt_put {piece : Buffer m} (inside : start + m ≤ n) (i : Nat) :
    (buffer.put start piece).byteAt i =
      if start ≤ i ∧ i < start + m then piece.byteAt (i - start) else buffer.byteAt i := by
  rw [put, dif_pos inside, byteAt]
  by_cases small : i < n
  · rw [dif_pos small, getElem_overwrite]
    by_cases within : start ≤ i ∧ i < start + m
    · rw [dif_pos within, if_pos within, byteAt, dif_pos (by omega)]
    · rw [dif_neg within, if_neg within, byteAt, dif_pos small]
  · rw [dif_neg small, if_neg (by omega), byteAt, dif_neg small]

theorem byteAt_putByte {byte : UInt8} (inside : start < n) (i : Nat) :
    (buffer.putByte start byte).byteAt i = if start = i then byte else buffer.byteAt i := by
  rw [putByte, dif_pos inside, byteAt, byteAt]
  by_cases small : i < n
  · rw [dif_pos small, dif_pos small, Vector.getElem_set]
  · rw [dif_neg small, dif_neg small, if_neg (by omega)]

/-! ### Reading afterwards -/

theorem sliceAt_put {piece : Buffer m} (inside : start + m ≤ n) :
    (buffer.put start piece).sliceAt start m = piece := by
  apply ext_byteAt
  intro i small
  rw [byteAt_sliceAt small, byteAt_put inside, if_pos (by omega), Nat.add_sub_cancel_left]

theorem sliceAt_put_apart {piece : Buffer m} {origin : Nat} (inside : start + m ≤ n)
    (apart : origin + count ≤ start ∨ start + m ≤ origin) :
    (buffer.put start piece).sliceAt origin count = buffer.sliceAt origin count := by
  apply sliceAt_congr
  intro i small
  rw [byteAt_put inside, if_neg (by omega)]

theorem wordAt_put_apart {piece : Buffer m} {origin : Nat} (inside : start + m ≤ n)
    (apart : origin + 4 ≤ start ∨ start + m ≤ origin) :
    (buffer.put start piece).wordAt origin = buffer.wordAt origin := by
  rw [wordAt, sliceAt_put_apart inside apart, wordAt]

theorem byteAt_put_apart {piece : Buffer m} (inside : start + m ≤ n) (apart : i < start ∨ start + m ≤ i) :
    (buffer.put start piece).byteAt i = buffer.byteAt i := by
  rw [byteAt_put inside, if_neg (by omega)]

theorem wordAt_putWord {word : UInt32} (inside : start + 4 ≤ n) :
    (buffer.putWord start word).wordAt start = word := by
  rw [wordAt, putWord, sliceAt_put inside, ofLittleEndian_toLittleEndian]
  apply UInt32.toNat_inj.mp
  rw [UInt32.toNat_ofNat']
  have small := word.toNat_lt
  have bound : byteBound 4 = 4294967296 := rfl
  rw [bound]
  omega

theorem wordAt_putWord_apart {word : UInt32} {origin : Nat} (inside : start + 4 ≤ n)
    (apart : origin + 4 ≤ start ∨ start + 4 ≤ origin) :
    (buffer.putWord start word).wordAt origin = buffer.wordAt origin :=
  wordAt_put_apart inside apart

theorem byteAt_putWord_apart {word : UInt32} (inside : start + 4 ≤ n) (apart : i < start ∨ start + 4 ≤ i) :
    (buffer.putWord start word).byteAt i = buffer.byteAt i :=
  byteAt_put_apart inside apart

theorem wordAt_putByte_apart {byte : UInt8} {origin : Nat} (inside : start < n)
    (apart : start < origin ∨ origin + 4 ≤ start) :
    (buffer.putByte start byte).wordAt origin = buffer.wordAt origin := by
  apply wordAt_congr
  intro i small
  rw [byteAt_putByte inside, if_neg (by omega)]

theorem byteAt_of_wordAt {origin : Nat} (same : buffer.wordAt start = other.wordAt origin) (small : i < 4) :
    buffer.byteAt (start + i) = other.byteAt (origin + i) := by
  have first := ofLittleEndian_lt (buffer.sliceAt start 4)
  have second := ofLittleEndian_lt (other.sliceAt origin 4)
  have numbers := congrArg UInt32.toNat same
  simp only [wordAt, UInt32.toNat_ofNat'] at numbers
  rw [show byteBound 4 = 2 ^ 32 from rfl] at first second
  rw [Nat.mod_eq_of_lt first, Nat.mod_eq_of_lt second] at numbers
  have slices : buffer.sliceAt start 4 = other.sliceAt origin 4 := by
    rw [← toLittleEndian_ofLittleEndian (buffer.sliceAt start 4), numbers, toLittleEndian_ofLittleEndian]
  rw [← byteAt_sliceAt small, slices, byteAt_sliceAt small]

/-! ### What is written, and what is not -/

/-- Two buffers that are the same but for some bytes. -/
def Spares (written : Nat → Prop) (buffer other : Buffer n) : Prop :=
  ∀ i, ¬ written i → other.byteAt i = buffer.byteAt i

section Spares

variable {written : Nat → Prop} {last : Buffer n}

theorem Spares.refl (written : Nat → Prop) (buffer : Buffer n) : Spares written buffer buffer := fun _ _ => rfl

theorem Spares.trans (first : Spares written buffer other) (second : Spares written other last) :
    Spares written buffer last :=
  fun i spared => (second i spared).trans (first i spared)

theorem spares_put {piece : Buffer m} (within : ∀ i, start ≤ i → i < start + m → written i) :
    Spares written buffer (buffer.put start piece) := by
  intro i spared
  by_cases inside : start + m ≤ n
  · rw [byteAt_put inside, if_neg fun both => spared (within i both.1 both.2)]
  · rw [put, dif_neg inside]

theorem spares_putByte {byte : UInt8} (within : written start) :
    Spares written buffer (buffer.putByte start byte) := by
  intro i spared
  by_cases inside : start < n
  · rw [byteAt_putByte inside, if_neg]
    rintro rfl
    exact spared within
  · rw [putByte, dif_neg inside]

theorem Spares.splice {piece : Buffer m} (done : buffer.splice start piece = .ok other)
    (within : ∀ i, start ≤ i → i < start + m → written i) : Spares written buffer other := by
  by_cases inside : start + m ≤ n
  · rw [splice_eq inside] at done
    cases done
    exact spares_put within
  · rw [Buffer.splice, dif_neg inside] at done
    cases done

theorem Spares.setWord {word : UInt32} (done : buffer.setWord start word = .ok other)
    (within : ∀ i, start ≤ i → i < start + 4 → written i) : Spares written buffer other :=
  .splice done within

theorem Spares.setByte {byte : UInt8} (done : buffer.setByte start byte = .ok other) (within : written start) :
    Spares written buffer other := by
  by_cases inside : start < n
  · rw [setByte_eq inside] at done
    cases done
    exact spares_putByte within
  · rw [Buffer.setByte, dif_neg inside] at done
    cases done

theorem Spares.move {source target : Nat} (done : buffer.move source count target = .ok other)
    (within : ∀ i, target ≤ i → i < target + count → written i) : Spares written buffer other := by
  obtain ⟨piece, _, written⟩ := ok_of_bind done
  exact .splice written within

theorem Spares.amend {change : Buffer count → Outcome (Buffer count)}
    (done : buffer.amend start count change = .ok other)
    (within : ∀ i, start ≤ i → i < start + count → written i) : Spares written buffer other := by
  obtain ⟨_, _, done⟩ := ok_of_bind done
  obtain ⟨piece, _, done⟩ := ok_of_bind done
  exact .splice done within

end Spares

/-! ### Fresh pages -/

theorem wordAt_of_bytes {value : Nat}
    (bytes : ∀ i < 4, buffer.byteAt (start + i) = UInt8.ofNat (value / byteBound i)) :
    buffer.wordAt start = UInt32.ofNat value := by
  have slice : buffer.sliceAt start 4 = toLittleEndian 4 value := by
    apply ext_byteAt
    intro i small
    rw [byteAt_sliceAt small, bytes i small, byteAt, dif_pos small]
    simp [toLittleEndian]
  rw [wordAt, slice, ofLittleEndian_toLittleEndian]
  apply UInt32.toNat_inj.mp
  rw [UInt32.toNat_ofNat', UInt32.toNat_ofNat', show byteBound 4 = 2 ^ 32 from rfl, Nat.mod_mod]

/-- A number below 256 is in the first byte of its word. -/
theorem wordAt_of_first {value : Nat} (small : value < 256) (first : buffer.byteAt start = UInt8.ofNat value)
    (rest : ∀ i, 0 < i → i < 4 → buffer.byteAt (start + i) = 0) : buffer.wordAt start = UInt32.ofNat value := by
  apply wordAt_of_bytes
  intro i less
  cases i with
  | zero =>
    rw [byteBound_zero, Nat.div_one]
    exact first
  | succ i =>
    have large : 256 ≤ byteBound (i + 1) := by
      have pos := byteBound_pos i
      rw [byteBound_succ]
      omega
    rw [rest (i + 1) (Nat.succ_pos i) less, Nat.div_eq_of_lt (by omega)]
    rfl

theorem wordAt_of_ones (ones : ∀ i < 4, buffer.byteAt (start + i) = 0xFF) :
    buffer.wordAt start = UInt32.ofNat 4294967295 := by
  apply wordAt_of_bytes
  intro i less
  rw [ones i less]
  interval_cases i <;> rfl

theorem byteAt_mapFinIdx (fresh : Nat → UInt8) (extent i : Nat) (reach : extent ≤ n) :
    byteAt (Vector.mapFinIdx buffer fun i byte _ => if i < extent then fresh i else byte) i =
      if i < extent then fresh i else buffer.byteAt i := by
  rw [byteAt, byteAt]
  by_cases small : i < n
  · rw [dif_pos small, dif_pos small]
    simp
  · rw [dif_neg small, dif_neg small, if_neg (by omega)]

end Buffer

namespace PageKind

/-- A page that bears the tag of a kind. -/
def Tags (kind : PageKind) (page : Page) : Prop := page.byteAt 0 = kind.tag

theorem Tags.expect {kind : PageKind} {page : Page} (tagged : kind.Tags page) : kind.expect page = .ok () := by
  have inside : 0 < pageSize := by decide
  have found : PageKind.read page = .ok kind := by
    rw [PageKind.read, Buffer.byte_eq inside]
    exact congrArg Except.ok ((congrArg ofTag tagged).trans (ofTag_tag kind))
  rw [PageKind.expect, bind_of_ok _ found]
  exact if_pos rfl

theorem Tags.unique {kind other : PageKind} {page : Page} (tagged : kind.Tags page) (also : other.Tags page) :
    kind = other := by
  rw [← ofTag_tag kind, ← ofTag_tag other, ← tagged, ← also]

theorem tags_zero : unformatted.Tags Page.zero := by
  simp [Tags, Buffer.byteAt, Page.zero, Buffer.filled, tag, pageSize]

/-- A page of some kind is not all zeros. -/
theorem Tags.written {kind : PageKind} {page : Page} (tagged : kind.Tags page) (formatted : kind ≠ unformatted) :
    page ≠ Page.zero := by
  rintro rfl
  exact formatted (tagged.unique tags_zero)

end PageKind

end PagedIndex
