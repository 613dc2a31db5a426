import Mathlib
import PagedIndex.Proofs.Format.DirectoryEdits
import PagedIndex.Proofs.Format.HeaderSlots

/-!
# What formatted pages keep

A header page or a directory page that was formatted says, at any time, what was set in it since. Whatever is set is
set in its own bytes: no other slot changes, nor the tag, nor the depth that was given, nor what stands behind the
format.
-/

namespace PagedIndex

open Buffer

variable {original page later : Page}

/-! ### Around the slots -/

/-- A page that bears a tag before reserved bytes that are zero, and that is what it was behind its format. -/
structure Enclosed (kind : PageKind) (extent : Nat) (original page : Page) : Prop where
  tag : page.byte 0 = .ok kind.tag
  reserved : ∀ i, 0 < i → i < 4 → page.byte i = .ok 0
  behind : ∀ i, extent ≤ i → page.byte i = original.byte i

theorem Enclosed.spared {kind : PageKind} {extent : Nat} {written : Nat → Prop}
    (enclosed : Enclosed kind extent original page) (spares : Spares written page later)
    (within : ∀ i, written i → 4 ≤ i ∧ i < extent) : Enclosed kind extent original later := by
  have kept : ∀ i, i < 4 ∨ extent ≤ i → later.byte i = page.byte i := by
    intro i outside
    apply byte_congr
    apply spares
    intro inside
    have bounds := within i inside
    omega
  constructor
  · rw [kept 0 (by omega), enclosed.tag]
  · intro i above below
    rw [kept i (by omega), enclosed.reserved i above below]
  · intro i above
    rw [kept i (by omega), enclosed.behind i above]

theorem enclosed_of_bytes {kind : PageKind} {extent : Nat} {fresh : Nat → UInt8} (large : 4 ≤ extent)
    (bytes : ∀ i, page.byteAt i = if i < extent then fresh i else original.byteAt i) (tag : fresh 0 = kind.tag)
    (reserved : ∀ i, 0 < i → i < 4 → fresh i = 0) : Enclosed kind extent original page := by
  constructor
  · rw [byte_eq (by decide), bytes, if_pos (by omega), tag]
  · intro i above below
    rw [byte_eq (by simp only [pageSize]; omega), bytes, if_pos (by omega), reserved i above below]
  · intro i above
    apply byte_congr
    rw [bytes, if_neg (by omega)]

/-! ### Header pages -/

namespace Header

variable {depth slot : Nat} {slots : Nat → PageId} {header : Header pageSize}

/-- A directory put into a slot. -/
structure Link where
  slot : Nat
  directory : PageId

def Link.apply (slots : Nat → PageId) (link : Link) : Nat → PageId := Function.update slots link.slot link.directory

def setAll {n : Nat} (header : Header n) : List Link → Outcome (Header n)
  | [] => return header
  | link :: rest => do setAll (← header.setDirectory link.slot link.directory) rest

def SlotByte (slot i : Nat) : Prop := slotsAt + 4 * slot ≤ i ∧ i < slotsAt + 4 * slot + 4

/-- A header page of some depth that says which directory stands in which slot, of all slots that it has. -/
structure Reflects (original : Page) (depth : Nat) (slots : Nat → PageId) (header : Header pageSize) : Prop where
  reopens : Header.ofBytes header.bytes = .ok header
  enclosed : Enclosed .header extent original header.bytes
  depth_eq : header.depth = .ok depth
  size_eq : header.size = .ok (2 ^ depth)
  directory_eq : ∀ slot, header.directory slot =
    if slot < 2 ^ depth then .ok (slots slot) else .error (.violation (.headerSlot slot))
  word_eq : ∀ slot < headerSlots, header.bytes.word (slotsAt + 4 * slot) = .ok (slots slot).number
  slotFor_eq : ∀ hash, header.slotFor hash = .ok (slotOf depth hash) ∧ slotOf depth hash < 2 ^ depth
  sets : ∀ slot < 2 ^ depth, ∀ page, ∃ later, header.setDirectory slot page = .ok later ∧
    Spares (SlotByte slot) header.bytes later.bytes

/-- What a header page has in its bytes when it reflects its slots. -/
structure Written (original : Page) (depth : Nat) (slots : Nat → PageId) (page : Page) : Prop where
  routes : Routes page
  enclosed : Enclosed .header extent original page
  depth_eq : depthOf page = depth
  slot_eq : ∀ slot < headerSlots, directoryAt page slot = slots slot

theorem slot_within (small : slot < headerSlots) {i : Nat} (byte : SlotByte slot i) : 4 ≤ i ∧ i < extent := by
  have slots : headerSlots = 512 := rfl
  have ends : extent = 2056 := rfl
  simp only [SlotByte, slotsAt] at byte
  omega

theorem spares_setDirectory {directory : PageId} (done : Header.setDirectory ⟨page⟩ slot directory = .ok header) :
    Spares (SlotByte slot) page header.bytes := by
  unfold Header.setDirectory at done
  obtain ⟨_, _, done⟩ := ok_of_bind done
  obtain ⟨bytes, written, done⟩ := ok_of_bind done
  cases done
  apply Spares.setWord written
  intro i above below
  exact ⟨above, below⟩

theorem written_of_format (done : Header.format original depth = .ok header) :
    Written original depth (fun _ => .invalid) header.bytes where
  routes := routes_of_format done
  enclosed := by
    apply enclosed_of_bytes (by decide) (byteAt_of_format done) rfl
    intro i above below
    apply freshByte_zero
    · omega
    · simp only [depthAt]
      omega
    · simp only [slotsAt]
      omega
  depth_eq := depthOf_of_format done
  slot_eq _ small := directoryAt_of_format done small

section Written

variable (written : Written original depth slots page)

include written

theorem Written.small (small : slot < 2 ^ depth) : slot < headerSlots := by
  rw [← written.depth_eq] at small
  exact Nat.lt_of_lt_of_le small (size_le written.routes.shallow)

theorem Written.set (link : Link) (small : link.slot < 2 ^ depth) :
    ∃ later, Header.setDirectory ⟨page⟩ link.slot link.directory = .ok ⟨later⟩ ∧
      Written original depth (link.apply slots) later := by
  have little := written.small small
  rw [← written.depth_eq] at small
  obtain ⟨later, done, routes, depth_eq, listed⟩ := written.routes.setDirectory small link.directory
  refine ⟨later, done, routes, ?_, depth_eq.trans written.depth_eq, ?_⟩
  · apply written.enclosed.spared (spares_setDirectory done)
    intro i byte
    exact slot_within little byte
  · intro other less
    rw [listed, Link.apply, Function.update_apply, written.slot_eq other less]

theorem Written.setAll (links : List Link) (small : ∀ link ∈ links, link.slot < 2 ^ depth) :
    ∃ later, Header.setAll ⟨page⟩ links = .ok ⟨later⟩ ∧
      Written original depth (links.foldl Link.apply slots) later := by
  induction links generalizing page slots with
  | nil => exact ⟨page, rfl, written⟩
  | cons link rest ih =>
    rw [List.forall_mem_cons] at small
    obtain ⟨next, done, further⟩ := written.set link small.1
    obtain ⟨later, all, ends⟩ := ih further small.2
    refine ⟨later, ?_, ends⟩
    rw [Header.setAll, bind_of_ok _ done, all]

theorem Written.requireSlot (slot : Nat) : Header.requireSlot ⟨page⟩ slot =
    if slot < 2 ^ depth then .ok () else .error (.violation (.headerSlot slot)) := by
  rw [Header.requireSlot, bind_of_ok _ written.routes.size, written.depth_eq]
  rfl

theorem Written.directory_eq (slot : Nat) : Header.directory ⟨page⟩ slot =
    if slot < 2 ^ depth then .ok (slots slot) else .error (.violation (.headerSlot slot)) := by
  by_cases small : slot < 2 ^ depth
  · rw [if_pos small, ← written.slot_eq slot (written.small small)]
    rw [← written.depth_eq] at small
    exact written.routes.directory small
  · rw [if_neg small, Header.directory, written.requireSlot, if_neg small]
    rfl

theorem Written.reflects : Reflects original depth slots ⟨page⟩ where
  reopens := written.routes.ofBytes
  enclosed := written.enclosed
  depth_eq := by rw [depth_ok, written.depth_eq]
  size_eq := by rw [written.routes.size, written.depth_eq]
  directory_eq := written.directory_eq
  word_eq slot small := by
    have slots : headerSlots = 512 := rfl
    rw [Buffer.word_eq (by simp only [slotsAt, pageSize]; omega), ← written.slot_eq slot small]
    rfl
  slotFor_eq hash := by
    have small := written.routes.depth_le
    rw [written.routes.slotFor, written.depth_eq]
    rw [written.depth_eq] at small
    exact ⟨rfl, slotOf_lt small hash⟩
  sets slot small directory := by
    obtain ⟨later, done, _⟩ := written.set ⟨slot, directory⟩ small
    exact ⟨⟨later⟩, done, spares_setDirectory done⟩

end Written

end Header

/-! ### Directory pages -/

namespace Directory

variable {state : DirectoryState} {directory next : Directory pageSize}

/-- The fields that are set when the slots in `low ≤ slot < high` come into use or fall out of it. -/
def Field.Resized (low high : Nat) (field : Field) : Prop :=
  field = .globalDepth ∨ ∃ slot, low ≤ slot ∧ slot < high ∧ (field = .depth slot ∨ field = .bucket slot)

namespace Edit

/-- The fields that an edit sets. -/
def Sets (state : DirectoryState) : Edit → Field → Prop
  | setBucket slot _, field => field = .bucket slot
  | setLocalDepth slot _, field => field = .depth slot
  | deepen slot, field => field = .depth slot
  | flatten slot, field => field = .depth slot
  | double, field => field.Resized state.size (2 * state.size)
  | halve, field => field.Resized (state.size / 2) state.size

def Writes (state : DirectoryState) (edit : Edit) (i : Nat) : Prop := ∃ field, edit.Sets state field ∧ field.Covers i

def runAll {n : Nat} (directory : Directory n) : List Edit → Outcome (Directory n)
  | [] => return directory
  | edit :: rest => do runAll (← edit.run directory) rest

def AllInRange (state : DirectoryState) : List Edit → Prop
  | [] => True
  | edit :: rest => edit.InRange state ∧ AllInRange (edit.apply state) rest

theorem same_setDepth {slot depth : Nat} {field : Field} (apart : field ≠ .depth slot) :
    field.Same state (state.setDepth slot depth) := by
  cases field with
  | depth other =>
    apply Function.update_of_ne
    rintro rfl
    exact apart rfl
  | _ => rfl

theorem same_resized {low high globalDepth : Nat} {depth : Nat → Nat} {bucket : Nat → PageId} {field : Field}
    (apart : ¬ field.Resized low high) :
    field.Same state { state.mapSlots low high depth bucket with globalDepth } := by
  cases field with
  | globalDepth => exact absurd (.inl rfl) apart
  | depth slot =>
    apply if_neg
    intro both
    exact apart (.inr ⟨slot, both.1, both.2, .inl rfl⟩)
  | bucket slot =>
    apply if_neg
    intro both
    exact apart (.inr ⟨slot, both.1, both.2, .inr rfl⟩)

theorem same_of_not_sets {edit : Edit} {field : Field} (apart : ¬ edit.Sets state field) :
    field.Same state (edit.apply state) := by
  cases edit with
  | setBucket slot page =>
    cases field with
    | bucket other =>
      apply Function.update_of_ne
      rintro rfl
      exact apart rfl
    | _ => rfl
  | setLocalDepth slot depth => exact same_setDepth apart
  | deepen slot => exact same_setDepth apart
  | flatten slot => exact same_setDepth apart
  | double => exact same_resized apart
  | halve => exact same_resized apart

end Edit

theorem Denotes.spares_writes {edit : Edit} (denotes : Denotes page state) (tidy : state.Tidy)
    (fits : edit.InRange state) (done : edit.run ⟨page⟩ = .ok next) :
    Spares (edit.Writes state) page next.bytes := by
  obtain ⟨later, again, ends⟩ := denotes.edited tidy edit fits
  rw [done] at again
  cases again
  intro i spared
  by_cases editable : Editable i
  · obtain ⟨field, covers⟩ := Field.exists_covers editable
    refine denotes.byteAt_eq ends (Edit.same_of_not_sets ?_) covers
    intro sets
    exact spared ⟨field, sets, covers⟩
  · exact denotes.spares tidy done i editable

/-- A directory page with a limit to its depth that says what a state says, of all slots that it has. -/
structure Reflects (original : Page) (limit : Nat) (state : DirectoryState) (directory : Directory pageSize) :
    Prop where
  reopens : Directory.ofBytes directory.bytes = .ok directory
  enclosed : Enclosed .directory extent original directory.bytes
  tidy : state.Tidy
  limited : ∀ slot, state.depth slot ≤ limit
  maxDepth_eq : directory.maxDepth = .ok limit
  maxSize_eq : directory.maxSize = .ok (2 ^ limit)
  globalDepth_eq : directory.globalDepth = .ok state.globalDepth
  size_eq : directory.size = .ok state.size
  bucket_eq : ∀ slot, directory.bucket slot =
    if slot < state.size then .ok (state.bucket slot) else .error (.violation (.directorySlot slot state.size))
  localDepth_eq : ∀ slot, directory.localDepth slot =
    if slot < state.size then .ok (state.depth slot) else .error (.violation (.directorySlot slot state.size))
  word_eq : ∀ slot < directorySlots, directory.bytes.word (bucketsAt + 4 * slot) = .ok (state.bucket slot).number
  byte_eq : ∀ slot < directorySlots, directory.bytes.byte (depthsAt + slot) = .ok (UInt8.ofNat (state.depth slot))
  slotFor_eq : ∀ hash, directory.slotFor hash = .ok (hash.toNat % state.size) ∧ hash.toNat % state.size < state.size
  edits : ∀ edit : Edit, edit.InRange state → ∃ later, edit.run directory = .ok later ∧
    Spares (edit.Writes state) directory.bytes later.bytes

/-- What a directory page has in its bytes when it reflects a state. -/
structure Written (original : Page) (limit : Nat) (state : DirectoryState) (page : Page) : Prop where
  denotes : Denotes page state
  enclosed : Enclosed .directory extent original page
  tidy : state.Tidy
  given : state.maxDepth = limit
  limited : ∀ slot, state.depth slot ≤ limit

theorem editable_within {i : Nat} (editable : Editable i) : 4 ≤ i ∧ i < extent := by
  unfold Editable at editable
  simp only [globalDepthAt] at editable
  omega

theorem written_of_format {limit : Nat} (small : limit ≤ maxDirectoryDepth) :
    ∃ later, Directory.format original limit = .ok ⟨later⟩ ∧ Written original limit (freshState limit) later := by
  obtain ⟨later, done, denotes⟩ := format_ok original small
  refine ⟨later, done, denotes, ?_, tidy_fresh small, rfl, fun _ => Nat.zero_le _⟩
  apply enclosed_of_bytes (by decide) (byteAt_of_format done) rfl
  intro i above below
  unfold freshByte
  rw [if_neg (by omega), if_neg (by simp only [maxDepthAt]; omega), if_pos (by rw [bucketsAt_eq]; omega)]

theorem limited_setDepth {limit slot depth : Nat} (limited : ∀ slot, state.depth slot ≤ limit) (within : depth ≤ limit)
    (other : Nat) : (state.setDepth slot depth).depth other ≤ limit := by
  simp only [DirectoryState.setDepth, Function.update_apply]
  split
  · exact within
  · exact limited other

theorem limited_double {limit : Nat} (limited : ∀ slot, state.depth slot ≤ limit) (slot : Nat) :
    state.double.depth slot ≤ limit := by
  simp only [DirectoryState.double, DirectoryState.mapSlots]
  split
  · exact limited (slot - state.size)
  · exact limited slot

theorem limited_halve {limit : Nat} (limited : ∀ slot, state.depth slot ≤ limit) (slot : Nat) :
    state.halve.depth slot ≤ limit := by
  simp only [DirectoryState.halve, DirectoryState.mapSlots]
  split
  · exact Nat.zero_le limit
  · exact limited slot

theorem Edit.maxDepth_apply (edit : Edit) (state : DirectoryState) : (edit.apply state).maxDepth = state.maxDepth := by
  cases edit <;> rfl

section Written

variable {limit : Nat} (written : Written original limit state page)

include written

theorem Written.limited_apply {edit : Edit} (fits : edit.InRange state) (slot : Nat) :
    (edit.apply state).depth slot ≤ limit := by
  have given := written.given
  subst given
  cases edit with
  | setBucket _ _ => exact written.limited slot
  | setLocalDepth _ _ => exact limited_setDepth written.limited fits.2 slot
  | deepen _ => exact limited_setDepth written.limited fits.2 slot
  | flatten _ => exact limited_setDepth written.limited fits.2.2 slot
  | double => exact limited_double written.limited slot
  | halve => exact limited_halve written.limited slot

theorem Written.edit (edit : Edit) (fits : edit.InRange state) :
    ∃ later, edit.run ⟨page⟩ = .ok ⟨later⟩ ∧ Written original limit (edit.apply state) later := by
  obtain ⟨later, done, ends⟩ := written.denotes.edited written.tidy edit fits
  refine ⟨later, done, ends, ?_, Edit.tidy written.tidy fits, ?_, written.limited_apply fits⟩
  · apply written.enclosed.spared (written.denotes.spares written.tidy done)
    intro i editable
    exact editable_within editable
  · rw [edit.maxDepth_apply, written.given]

theorem Written.editAll (edits : List Edit) (fits : Edit.AllInRange state edits) :
    ∃ later, Edit.runAll ⟨page⟩ edits = .ok ⟨later⟩ ∧ Written original limit (edits.foldl Edit.apply state) later := by
  induction edits generalizing page state with
  | nil => exact ⟨page, rfl, written⟩
  | cons edit rest ih =>
    obtain ⟨next, done, further⟩ := written.edit edit fits.1
    obtain ⟨later, all, ends⟩ := ih further fits.2
    refine ⟨later, ?_, ends⟩
    rw [Edit.runAll, bind_of_ok _ done, all]

theorem Written.requireSlot (slot : Nat) : Directory.requireSlot ⟨page⟩ slot =
    if slot < state.size then .ok () else .error (.violation (.directorySlot slot state.size)) := by
  rw [Directory.requireSlot, bind_of_ok _ (written.denotes.size written.tidy.shallow_max)]
  rfl

theorem Written.bucket_eq (slot : Nat) : Directory.bucket ⟨page⟩ slot =
    if slot < state.size then .ok (state.bucket slot) else .error (.violation (.directorySlot slot state.size)) := by
  by_cases small : slot < state.size
  · rw [if_pos small, written.denotes.bucket_ok written.tidy.shallow_max small]
  · rw [if_neg small, Directory.bucket, written.requireSlot, if_neg small]
    rfl

theorem Written.localDepth_eq (slot : Nat) : Directory.localDepth ⟨page⟩ slot =
    if slot < state.size then .ok (state.depth slot) else .error (.violation (.directorySlot slot state.size)) := by
  by_cases small : slot < state.size
  · rw [if_pos small, written.denotes.localDepth written.tidy.shallow_max small]
  · rw [if_neg small, Directory.localDepth, written.requireSlot, if_neg small]
    rfl

theorem Written.maxSize : Directory.maxSize ⟨page⟩ = .ok (2 ^ limit) := by
  have small := written.tidy.limited
  simp only [maxDirectoryDepth] at small
  rw [Directory.maxSize, bind_of_ok _ written.denotes.maxDepth, powerOfTwo_eq (by omega), written.given]

theorem Written.reflects : Reflects original limit state ⟨page⟩ where
  reopens := written.denotes.ofBytes
  enclosed := written.enclosed
  tidy := written.tidy
  limited := written.limited
  maxDepth_eq := by rw [written.denotes.maxDepth, written.given]
  maxSize_eq := written.maxSize
  globalDepth_eq := written.denotes.globalDepth
  size_eq := written.denotes.size written.tidy.shallow_max
  bucket_eq := written.bucket_eq
  localDepth_eq := written.localDepth_eq
  word_eq slot small := by rw [Buffer.word_eq (bucket_inside small), written.denotes.bucket small]
  byte_eq slot small := by
    rw [Buffer.byte_eq (depth_inside small), ← written.denotes.depth small, UInt8.ofNat_toNat]
  slotFor_eq hash := by
    rw [written.denotes.slotFor written.tidy.shallow_max]
    exact ⟨rfl, Nat.mod_lt _ state.size_pos⟩
  edits edit fits := by
    obtain ⟨later, done, _⟩ := written.edit edit fits
    exact ⟨⟨later⟩, done, written.denotes.spares_writes written.tidy fits done⟩

end Written

end Directory

/-- Pages that are formatted and written to reflect what was set, slot by slot and byte by byte. -/
theorem formats_reflect (original : Page) :
    (∀ depth ≤ maxHeaderDepth, ∃ header, Header.format original depth = .ok header ∧
      ∀ links : List Header.Link, (∀ link ∈ links, link.slot < 2 ^ depth) → ∃ later, header.setAll links = .ok later ∧
        Header.Reflects original depth (links.foldl Header.Link.apply fun _ => .invalid) later) ∧
    ∀ limit ≤ maxDirectoryDepth, ∃ directory, Directory.format original limit = .ok directory ∧
      ∀ edits, Directory.Edit.AllInRange (Directory.freshState limit) edits →
        ∃ later, Directory.Edit.runAll directory edits = .ok later ∧
          Directory.Reflects original limit (edits.foldl Directory.Edit.apply (Directory.freshState limit)) later := by
  constructor
  · intro depth shallow
    obtain ⟨fresh, done, _⟩ := Header.format_ok original shallow
    refine ⟨⟨fresh⟩, done, ?_⟩
    intro links small
    obtain ⟨later, all, written⟩ := (Header.written_of_format done).setAll links small
    exact ⟨⟨later⟩, all, written.reflects⟩
  · intro limit shallow
    obtain ⟨fresh, done, first⟩ := Directory.written_of_format shallow
    refine ⟨⟨fresh⟩, done, ?_⟩
    intro edits fits
    obtain ⟨later, all, written⟩ := first.editAll edits fits
    exact ⟨⟨later⟩, all, written.reflects⟩

/-- A page full of sevens keeps them behind its format, whatever its slots are set to. -/
theorem formats_reflect_sevens :
    (∃ header later, Header.format (Vector.replicate pageSize 7) 2 = .ok header ∧
      header.setAll [⟨3, ⟨5⟩⟩, ⟨0, ⟨6⟩⟩, ⟨3, ⟨9⟩⟩] = .ok later ∧ later.directory 3 = .ok ⟨9⟩ ∧
      later.directory 1 = .ok .invalid ∧ later.bytes.byte 2056 = .ok 7) ∧
    ∃ directory later, Directory.format (Vector.replicate pageSize 7) 2 = .ok directory ∧
      Directory.Edit.runAll directory
        [.setBucket 0 ⟨5⟩, .double, .setBucket 1 ⟨8⟩, .deepen 0, .setLocalDepth 1 2, .double, .flatten 3, .halve] =
          .ok later ∧
      later.globalDepth = .ok 1 ∧ later.bucket 1 = .ok ⟨8⟩ ∧ later.localDepth 1 = .ok 2 ∧
      later.bucket 2 = .error (.violation (.directorySlot 2 2)) ∧ later.bytes.byte 2572 = .ok 7 := by
  have seven : ∀ i < pageSize, Buffer.byte (Vector.replicate pageSize 7) i = .ok 7 := by
    intro i small
    rw [Buffer.byte, dif_pos small, Vector.getElem_replicate]
  obtain ⟨headers, directories⟩ := formats_reflect (Vector.replicate pageSize 7)
  obtain ⟨header, formatted, runs⟩ := headers 2 (by decide)
  obtain ⟨later, done, reflects⟩ := runs [⟨3, ⟨5⟩⟩, ⟨0, ⟨6⟩⟩, ⟨3, ⟨9⟩⟩] (by decide)
  refine ⟨⟨header, later, formatted, done, reflects.directory_eq 3, reflects.directory_eq 1, ?_⟩, ?_⟩
  · rw [reflects.enclosed.behind 2056 (by decide), seven 2056 (by decide)]
  obtain ⟨directory, formatted, runs⟩ := directories 2 (by decide)
  obtain ⟨later, done, reflects⟩ := runs [.setBucket 0 ⟨5⟩, .double, .setBucket 1 ⟨8⟩, .deepen 0, .setLocalDepth 1 2,
    .double, .flatten 3, .halve] (by simp only [Directory.Edit.AllInRange, Directory.Edit.InRange]; decide)
  refine ⟨directory, later, formatted, done, reflects.globalDepth_eq, reflects.bucket_eq 1, reflects.localDepth_eq 1,
    reflects.bucket_eq 2, ?_⟩
  rw [reflects.enclosed.behind 2572 (by decide), seven 2572 (by decide)]

end PagedIndex
