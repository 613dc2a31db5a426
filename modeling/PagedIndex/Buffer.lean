import PagedIndex.Failure

/-!
# Buffers

A buffer is a fixed number of bytes. Reading or writing outside it is a violation and changes nothing;
numbers are stored least significant byte first.
-/

namespace PagedIndex

abbrev Buffer (n : Nat) := Vector UInt8 n

/-! ### Numbers as bytes -/

/-- One past the largest number of `width` bytes. -/
def byteBound (width : Nat) : Nat := Nat.pow 256 width

theorem byteBound_zero : byteBound 0 = 1 := rfl

theorem byteBound_succ (width : Nat) : byteBound (width + 1) = byteBound width * 256 := rfl

theorem byteBound_add (low high : Nat) : byteBound (low + high) = byteBound low * byteBound high :=
  Nat.pow_add 256 low high

theorem byteBound_pos (width : Nat) : 0 < byteBound width := Nat.pow_pos (by decide)

/-- The `width` low bytes of `value`, least significant first. -/
def toLittleEndian (width value : Nat) : Buffer width :=
  .ofFn fun i => UInt8.ofNat (value / byteBound i.val)

/-- The number whose bytes these are, least significant first. -/
def ofLittleEndian {width : Nat} (bytes : Buffer width) : Nat :=
  width.fold (fun i _ low => low + bytes[i].toNat * byteBound i) 0

theorem ofLittleEndian_toLittleEndian (width value : Nat) :
    ofLittleEndian (toLittleEndian width value) = value % byteBound width := by
  suffices low_bytes : ∀ k (le : k ≤ width),
      k.fold (fun i _ low => low + (toLittleEndian width value)[i].toNat * byteBound i) 0 =
        value % byteBound k from low_bytes width (Nat.le_refl width)
  intro k le
  induction k with
  | zero => simp [byteBound_zero, Nat.mod_one]
  | succ k ih =>
    rw [Nat.fold_succ, ih (by omega), byteBound_succ, Nat.mod_mul]
    simp [toLittleEndian, Nat.mul_comm]

theorem fold_lt {width : Nat} (bytes : Buffer width) (k : Nat) (le : k ≤ width) :
    k.fold (fun i _ low => low + bytes[i].toNat * byteBound i) 0 < byteBound k := by
  induction k with
  | zero => simp [byteBound_zero]
  | succ k ih =>
    rw [Nat.fold_succ, byteBound_succ]
    have below := ih (by omega)
    have top := Nat.mul_le_mul_right (byteBound k) (Nat.le_of_lt_succ (bytes[k].toNat_lt))
    omega

theorem ofLittleEndian_lt {width : Nat} (bytes : Buffer width) : ofLittleEndian bytes < byteBound width :=
  fold_lt bytes width (Nat.le_refl width)

theorem toLittleEndian_ofLittleEndian {width : Nat} (bytes : Buffer width) :
    toLittleEndian width (ofLittleEndian bytes) = bytes := by
  suffices low_bytes : ∀ k (le : k ≤ width), ∀ i (small : i < k),
      k.fold (fun i _ low => low + bytes[i].toNat * byteBound i) 0 / byteBound i % 256 =
        bytes[i].toNat by
    apply Vector.ext
    intro i small
    simp only [toLittleEndian, Vector.getElem_ofFn]
    apply UInt8.toNat_inj.mp
    rw [UInt8.toNat_ofNat']
    exact low_bytes width (Nat.le_refl width) i small
  intro k le
  induction k with
  | zero => intro i small; omega
  | succ k ih =>
    intro i small
    rw [Nat.fold_succ]
    by_cases last : i = k
    · subst last
      rw [Nat.add_mul_div_right _ _ (byteBound_pos i), Nat.div_eq_of_lt (fold_lt bytes i (by omega)),
        Nat.zero_add]
      exact Nat.mod_eq_of_lt bytes[i].toNat_lt
    · have split : byteBound k = 256 * byteBound (k - i - 1) * byteBound i := by
        rw [Nat.mul_comm 256, ← byteBound_succ, ← byteBound_add]
        congr 1
        omega
      rw [split, ← Nat.mul_assoc, Nat.add_mul_div_right _ _ (byteBound_pos i),
        Nat.mul_left_comm, Nat.add_mul_mod_self_left]
      exact ih (by omega) i (by omega)

namespace Buffer

variable {n m : Nat}

def filled (n : Nat) (byte : UInt8) : Buffer n := .replicate n byte

/-! ### Pieces of a buffer -/

/-- The `count` bytes from `start` on. -/
def slice (buffer : Buffer n) (start count : Nat) : Outcome (Buffer count) :=
  if inside : start + count ≤ n then
    .ok (.ofFn fun i => buffer[start + i.val])
  else .error (.violation .outOfBounds)

/-- `buffer` with `piece` in place of its bytes from `start` on. -/
def overwrite (buffer : Buffer n) (start : Nat) (piece : Buffer m) (inside : start + m ≤ n) : Buffer n :=
  m.fold (fun i small result => result.set (start + i) piece[i]) buffer

def splice (buffer : Buffer n) (start : Nat) (piece : Buffer m) : Outcome (Buffer n) :=
  if inside : start + m ≤ n then .ok (buffer.overwrite start piece inside)
  else .error (.violation .outOfBounds)

/-- `buffer` with the `count` bytes from `start` on as `change` leaves them. -/
def amend (buffer : Buffer n) (start count : Nat) (change : Buffer count → Outcome (Buffer count)) :
    Outcome (Buffer n) := do
  buffer.splice start (← change (← buffer.slice start count))

theorem getElem_overwrite (buffer : Buffer n) (start : Nat) (piece : Buffer m) (inside : start + m ≤ n)
    (i : Nat) (small : i < n) :
    (buffer.overwrite start piece inside)[i] =
      if within : start ≤ i ∧ i < start + m then piece[i - start] else buffer[i] := by
  unfold overwrite
  suffices partial_fold : ∀ k (le : k ≤ m),
      (k.fold (fun j _ result => result.set (start + j) piece[j]) buffer : Buffer n)[i] =
        if within : start ≤ i ∧ i < start + k then piece[i - start] else buffer[i] from
    partial_fold m (Nat.le_refl m)
  intro k le
  induction k with
  | zero => simp [show ¬(start ≤ i ∧ i < start) by omega]
  | succ k ih =>
    rw [Nat.fold_succ, Vector.getElem_set, ih (by omega)]
    by_cases same : start + k = i
    · subst same
      simp
    · simp only [same, if_false]
      by_cases within : start ≤ i ∧ i < start + k
      · simp [within, show start ≤ i ∧ i < start + (k + 1) by omega]
      · simp [within, show ¬(start ≤ i ∧ i < start + (k + 1)) by omega]

/-! ### Words -/

def word (buffer : Buffer n) (start : Nat) : Outcome UInt32 := do
  return UInt32.ofNat (ofLittleEndian (← buffer.slice start 4))

def setWord (buffer : Buffer n) (start : Nat) (word : UInt32) : Outcome (Buffer n) :=
  buffer.splice start (toLittleEndian 4 word.toNat)

def byte (buffer : Buffer n) (start : Nat) : Outcome UInt8 :=
  if inside : start < n then .ok buffer[start] else .error (.violation .outOfBounds)

def setByte (buffer : Buffer n) (start : Nat) (byte : UInt8) : Outcome (Buffer n) :=
  if inside : start < n then .ok (buffer.set start byte) else .error (.violation .outOfBounds)

/-- A copy of the `count` bytes from `source` on, put at `target`; the two ranges may overlap. -/
def move (buffer : Buffer n) (source count target : Nat) : Outcome (Buffer n) := do
  buffer.splice target (← buffer.slice source count)

end Buffer

/-- `2 ^ depth` as a word. -/
def powerOfTwo (depth : Nat) : Outcome Nat :=
  if depth < 32 then .ok (Nat.pow 2 depth) else .error (.violation .overflow)

end PagedIndex
