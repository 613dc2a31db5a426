import Mathlib
import PagedIndex.Proofs.Format.DirectoryForm

/-!
# Checking directories

A directory passes its own check just if no slot is deeper than the directory, all slots of a bucket are of one
depth, and a bucket of local depth `d` stands in `2 ^ (globalDepth - d)` slots. That is so in a well-formed directory;
but as slots are only counted, it does not say which slots a bucket is in.
-/

namespace PagedIndex

namespace DirectoryState

/-- In how many of the first slots a bucket stands. -/
def stand (state : DirectoryState) (bucket : PageId) (slots : Nat) : Nat :=
  Nat.count (fun slot => state.bucket slot = bucket) slots

variable {state : DirectoryState} {slot : Nat}

theorem count_low (deep : state.depth slot ≤ state.globalDepth) :
    Nat.count (· ≡ slot [MOD 2 ^ state.depth slot]) state.size = 2 ^ (state.globalDepth - state.depth slot) := by
  have size : state.size = 2 ^ state.depth slot * 2 ^ (state.globalDepth - state.depth slot) := by
    rw [← Nat.pow_add, Nat.add_sub_cancel' deep, DirectoryState.size]
  rw [Nat.count_modEq_card _ (Nat.two_pow_pos _), size, Nat.mul_mod_right,
    Nat.mul_div_cancel_left _ (Nat.two_pow_pos _), if_neg (Nat.not_lt_zero _), Nat.add_zero]

theorem Formed.stand_eq (formed : state.Formed) (small : slot < state.size) :
    state.stand (state.bucket slot) state.size = 2 ^ (state.globalDepth - state.depth slot) := by
  have alike : Nat.count (fun other => state.bucket other = state.bucket slot) state.size =
      Nat.count (· ≡ slot [MOD 2 ^ state.depth slot]) state.size := by
    rw [Nat.count_eq_card_filter_range, Nat.count_eq_card_filter_range]
    congr 1
    refine Finset.filter_congr fun other member => ?_
    rw [eq_comm, formed.share_iff slot small other (Finset.mem_range.mp member), Nat.ModEq, eq_comm]
  rw [stand, alike, count_low (formed.depth_le slot small)]

/-- What is sure of a directory whose slots were counted. -/
structure Counted (state : DirectoryState) : Prop where
  depth_le : ∀ slot < state.size, (state.bucket slot).isValid = true → state.depth slot ≤ state.globalDepth
  depth_eq : ∀ a < state.size, ∀ b < state.size, (state.bucket a).isValid = true → state.bucket a = state.bucket b →
    state.depth a = state.depth b
  stand_eq : ∀ slot < state.size, (state.bucket slot).isValid = true →
    state.stand (state.bucket slot) state.size = 2 ^ (state.globalDepth - state.depth slot)

theorem Formed.counted (formed : state.Formed) : state.Counted where
  depth_le slot small _ := formed.depth_le slot small
  depth_eq a small b little _ same := formed.depth_eq a small b little same
  stand_eq _ small _ := formed.stand_eq small

/-- The first slot that names its bucket. -/
def Leads (state : DirectoryState) (slot : Nat) : Prop :=
  (state.bucket slot).isValid = true ∧ ∀ other < slot, state.bucket other ≠ state.bucket slot

theorem exists_leads (valid : (state.bucket slot).isValid = true) :
    ∃ first ≤ slot, state.bucket first = state.bucket slot ∧ state.Leads first := by
  have named : ∃ first, state.bucket first = state.bucket slot := ⟨slot, rfl⟩
  have same := Nat.find_spec named
  refine ⟨Nat.find named, Nat.find_min' named rfl, same, by rwa [same], fun other less here => ?_⟩
  exact Nat.find_min named less (here.trans same)

/-- The slots of a bucket agree in the low bits of their depth. -/
def Aligned (state : DirectoryState) (bucket : PageId) : Prop :=
  ∀ a < state.size, ∀ b < state.size, state.bucket a = bucket → state.bucket b = bucket →
    a % 2 ^ state.depth a = b % 2 ^ state.depth a

theorem Formed.aligned (formed : state.Formed) (bucket : PageId) : state.Aligned bucket :=
  fun a small b little here there => (formed.share_iff a small b little).mp (here.trans there.symm)

/-- The slots of a bucket agree in their low bits just if the bucket is in all slots that do, as there are as many. -/
theorem Counted.aligned_iff (counted : state.Counted) (small : slot < state.size)
    (valid : (state.bucket slot).isValid = true) : state.Aligned (state.bucket slot) ↔
      ∀ other < state.size, other % 2 ^ state.depth slot = slot % 2 ^ state.depth slot →
        state.bucket other = state.bucket slot := by
  let named := (Finset.range state.size).filter fun other => state.bucket other = state.bucket slot
  let alike := (Finset.range state.size).filter (· ≡ slot [MOD 2 ^ state.depth slot])
  have named_iff : ∀ other, other ∈ named ↔ other < state.size ∧ state.bucket other = state.bucket slot :=
    fun _ => Finset.mem_filter.trans (and_congr_left' Finset.mem_range)
  have alike_iff : ∀ other, other ∈ alike ↔
      other < state.size ∧ other % 2 ^ state.depth slot = slot % 2 ^ state.depth slot :=
    fun _ => Finset.mem_filter.trans (and_congr_left' Finset.mem_range)
  -- There are as many slots of the one kind as of the other, so one inclusion is enough for both.
  have card : alike.card = named.card := by
    rw [← Nat.count_eq_card_filter_range, ← Nat.count_eq_card_filter_range,
      count_low (counted.depth_le slot small valid)]
    exact (counted.stand_eq slot small valid).symm
  constructor
  · intro aligned other little same
    have inside : named ⊆ alike := fun other member => by
      obtain ⟨little, here⟩ := (named_iff other).mp member
      exact (alike_iff other).mpr ⟨little, (aligned slot small other little rfl here).symm⟩
    have member := (alike_iff other).mpr ⟨little, same⟩
    rw [← Finset.eq_of_subset_of_card_le inside (Nat.le_of_eq card)] at member
    exact ((named_iff other).mp member).2
  · intro all a small_a b small_b here there
    have inside : alike ⊆ named := fun other member => by
      obtain ⟨little, same⟩ := (alike_iff other).mp member
      exact (named_iff other).mpr ⟨little, all other little same⟩
    have low : ∀ other < state.size, state.bucket other = state.bucket slot →
        other % 2 ^ state.depth slot = slot % 2 ^ state.depth slot := fun other little same => by
      have member := (named_iff other).mpr ⟨little, same⟩
      rw [← Finset.eq_of_subset_of_card_le inside (Nat.le_of_eq card.symm)] at member
      exact ((alike_iff other).mp member).2
    rw [counted.depth_eq a small_a slot small (by rwa [here]) here, low a small_a here, low b small_b there]

/-- Two buckets in two slots each, where they do not belong. -/
def crossed : DirectoryState where
  maxDepth := 2
  globalDepth := 2
  depth _ := 1
  bucket slot := if slot = 0 ∨ slot = 3 then ⟨2⟩ else ⟨3⟩

/-- Counting does not find out which slots a bucket is in. -/
theorem crossed_counted : crossed.Counted ∧ ¬ crossed.Aligned (crossed.bucket 0) := by
  refine ⟨⟨by decide, by decide, by decide⟩, fun aligned => ?_⟩
  exact absurd (aligned 0 (by decide) 3 (by decide) rfl rfl) (by decide)

end DirectoryState

namespace Directory

open DirectoryState

variable {state : DirectoryState} {page : Page} {found : List Mention} {bucket : PageId} {depth slots : Nat}

/-- What is found with one more slot of a bucket. -/
def noted (bucket : PageId) (depth : Nat) : List Mention → List Mention
  | [] => [⟨bucket, depth, 1⟩]
  | first :: rest =>
    if first.bucket = bucket then { first with count := first.count + 1 } :: rest
    else first :: noted bucket depth rest

/-- A bucket and its depth, as a mention has them. -/
def Mention.said (mention : Mention) : PageId × Nat := (mention.bucket, mention.depth)

/-- Whatever a mention says beside its count is there as before, or is new. -/
theorem map_noted {α : Type} (tells : Mention → α)
    (same : ∀ mention : Mention, tells { mention with count := mention.count + 1 } = tells mention) (bucket : PageId)
    (depth : Nat) (found : List Mention) : (noted bucket depth found).map tells =
      if bucket ∈ found.map Mention.bucket then found.map tells else found.map tells ++ [tells ⟨bucket, depth, 1⟩] := by
  induction found with
  | nil => rfl
  | cons first rest ih =>
    rw [noted]
    split
    · rename_i here
      rw [List.map_cons, same, if_pos (by simp [here])]
      rfl
    · rename_i differ
      rw [List.map_cons, ih, List.map_cons]
      by_cases member : bucket ∈ rest.map Mention.bucket
      · rw [if_pos member, if_pos (List.mem_cons_of_mem _ member)]
        rfl
      · rw [if_neg member, if_neg (List.not_mem_cons_of_ne_of_not_mem (Ne.symm differ) member)]
        rfl

theorem mem_noted (apart : (found.map Mention.bucket).Nodup) {mention : Mention}
    (member : mention ∈ noted bucket depth found) :
    (mention ∈ found ∧ mention.bucket ≠ bucket) ∨
      (∃ old ∈ found, old.bucket = bucket ∧ mention = { old with count := old.count + 1 }) ∨
      mention = ⟨bucket, depth, 1⟩ ∧ bucket ∉ found.map Mention.bucket := by
  induction found with
  | nil => exact .inr (.inr ⟨List.mem_singleton.mp member, List.not_mem_nil⟩)
  | cons first rest ih =>
    rw [List.map_cons, List.nodup_cons] at apart
    rw [noted] at member
    split at member
    · rename_i same
      rcases List.mem_cons.mp member with rfl | later
      · exact .inr (.inl ⟨first, List.mem_cons_self, same, rfl⟩)
      · refine .inl ⟨List.mem_cons_of_mem _ later, fun here => apart.1 ?_⟩
        rw [same, ← here]
        exact List.mem_map_of_mem later
    · rename_i differ
      rcases List.mem_cons.mp member with rfl | later
      · exact .inl ⟨List.mem_cons_self, differ⟩
      · rcases ih apart.2 later with ⟨old, other⟩ | ⟨old, there, same, rfl⟩ | ⟨rfl, absent⟩
        · exact .inl ⟨List.mem_cons_of_mem _ old, other⟩
        · exact .inr (.inl ⟨old, List.mem_cons_of_mem _ there, same, rfl⟩)
        · refine .inr (.inr ⟨rfl, ?_⟩)
          rw [List.map_cons, List.mem_cons]
          rintro (same | member)
          · exact differ same.symm
          · exact absent member

/-- The mentions found so far are what the first slots say. -/
structure Tallied (state : DirectoryState) (slots : Nat) (found : List Mention) : Prop where
  apart : (found.map Mention.bucket).Nodup
  depth_le : ∀ slot < slots, (state.bucket slot).isValid = true → state.depth slot ≤ state.globalDepth
  all : ∀ slot < slots, (state.bucket slot).isValid = true →
    (state.bucket slot, state.depth slot) ∈ found.map Mention.said
  each : ∀ mention ∈ found, mention.bucket.isValid = true ∧ mention.count = state.stand mention.bucket slots ∧
    ∃ slot < slots, state.bucket slot = mention.bucket ∧ state.depth slot = mention.depth

theorem Tallied.start (state : DirectoryState) : Tallied state 0 [] :=
  ⟨List.nodup_nil, fun _ less => absurd less (Nat.not_lt_zero _), fun _ less => absurd less (Nat.not_lt_zero _),
    List.forall_mem_nil _⟩

theorem Tallied.skipped (tallied : Tallied state slots found) (vacant : (state.bucket slots).isValid = false) :
    Tallied state (slots + 1) found where
  apart := tallied.apart
  depth_le slot small valid := by
    rcases Nat.lt_succ_iff_lt_or_eq.mp small with less | rfl
    · exact tallied.depth_le slot less valid
    · rw [vacant] at valid
      cases valid
  all slot small valid := by
    rcases Nat.lt_succ_iff_lt_or_eq.mp small with less | rfl
    · exact tallied.all slot less valid
    · rw [vacant] at valid
      cases valid
  each mention member := by
    obtain ⟨valid, count, slot, small, here⟩ := tallied.each mention member
    refine ⟨valid, ?_, slot, Nat.lt_succ_of_lt small, here⟩
    have other : state.bucket slots ≠ mention.bucket := by
      intro same
      rw [same, valid] at vacant
      cases vacant
    rw [count, stand, stand, Nat.count_succ, if_neg other, Nat.add_zero]

theorem Tallied.noted (tallied : Tallied state slots found) (valid : (state.bucket slots).isValid = true)
    (deep : state.depth slots ≤ state.globalDepth)
    (even : ∀ mention ∈ found, mention.bucket = state.bucket slots → mention.depth = state.depth slots) :
    Tallied state (slots + 1) (noted (state.bucket slots) (state.depth slots) found) where
  apart := by
    rw [map_noted Mention.bucket fun _ => rfl]
    split
    · exact tallied.apart
    · rename_i absent
      refine List.nodup_append.mpr ⟨tallied.apart, List.nodup_singleton _, fun a first b second same => absent ?_⟩
      rw [show state.bucket slots = b from (List.mem_singleton.mp second).symm, ← same]
      exact first
  depth_le slot small there := by
    rcases Nat.lt_succ_iff_lt_or_eq.mp small with less | rfl
    · exact tallied.depth_le slot less there
    · exact deep
  all slot small there := by
    rw [map_noted Mention.said fun _ => rfl]
    rcases Nat.lt_succ_iff_lt_or_eq.mp small with less | rfl
    · have old := tallied.all slot less there
      split
      · exact old
      · exact List.mem_append_left _ old
    · split
      · rename_i present
        obtain ⟨mention, member, same⟩ := List.mem_map.mp present
        exact List.mem_map.mpr ⟨mention, member, Prod.ext same (even mention member same)⟩
      · exact List.mem_append_right _ (List.mem_singleton_self _)
  each mention member := by
    rw [stand, Nat.count_succ]
    rcases mem_noted tallied.apart member with ⟨old, other⟩ | ⟨old, there, same, rfl⟩ | ⟨rfl, absent⟩
    · obtain ⟨real, count, slot, small, here⟩ := tallied.each mention old
      refine ⟨real, ?_, slot, Nat.lt_succ_of_lt small, here⟩
      rw [if_neg (Ne.symm other), Nat.add_zero, count, stand]
    · obtain ⟨real, count, slot, small, here⟩ := tallied.each old there
      refine ⟨real, ?_, slot, Nat.lt_succ_of_lt small, here⟩
      dsimp only
      rw [if_pos same.symm, count, stand]
    · refine ⟨valid, ?_, slots, Nat.lt_succ_self _, rfl, rfl⟩
      -- A bucket without a mention was in none of the slots so far.
      have before : Nat.count (fun slot => state.bucket slot = state.bucket slots) slots = 0 := by
        refine Nat.count_of_forall_not fun slot small same => absent ?_
        obtain ⟨mention, member, said⟩ := List.mem_map.mp (tallied.all slot small (by rwa [same]))
        exact List.mem_map.mpr ⟨mention, member, (congrArg Prod.fst said).trans same⟩
      dsimp only
      rw [if_pos rfl, before]

theorem Tallied.counted (tallied : Tallied state state.size found)
    (right : ∀ mention ∈ found, mention.count = 2 ^ (state.globalDepth - mention.depth)) : state.Counted where
  depth_le := tallied.depth_le
  depth_eq a small b little valid same := by
    obtain ⟨first, member, said⟩ := List.mem_map.mp (tallied.all a small valid)
    obtain ⟨second, other, told⟩ := List.mem_map.mp (tallied.all b little (by rwa [← same]))
    have one : first = second := List.inj_on_of_nodup_map tallied.apart member other
      ((congrArg Prod.fst said).trans (same.trans (congrArg Prod.fst told).symm))
    exact (congrArg Prod.snd said).symm.trans ((congrArg Mention.depth one).trans (congrArg Prod.snd told))
  stand_eq slot small valid := by
    obtain ⟨mention, member, said⟩ := List.mem_map.mp (tallied.all slot small valid)
    obtain ⟨bucket, depth⟩ := Prod.mk.inj said
    rw [← bucket, ← depth, ← right mention member]
    exact (tallied.each mention member).2.1.symm

/-! ### Checking the slots -/

/-- A directory is said to be corrupt, for a reason. -/
def Corrupt (wrong : Prop) (error : Error) : Prop := wrong ∧ ∃ fault, error = .corruptDirectory fault

theorem Corrupt.mono {wrong worse : Prop} (why : wrong → worse) (error : Error) (corrupt : Corrupt wrong error) :
    Corrupt worse error :=
  ⟨why corrupt.1, corrupt.2⟩

theorem mention_settles (apart : (found.map Mention.bucket).Nodup) (bucket : PageId) (depth : Nat) :
    Settles (Corrupt (¬ ∀ mention ∈ found, mention.bucket = bucket → mention.depth = depth))
      (fun next => next = noted bucket depth found ∧
        ∀ mention ∈ found, mention.bucket = bucket → mention.depth = depth) (mention bucket depth found) := by
  induction found with
  | nil => exact .ok ⟨rfl, List.forall_mem_nil _⟩
  | cons first rest ih =>
    rw [List.map_cons, List.nodup_cons] at apart
    rw [mention, noted]
    split
    · rename_i same
      split
      · rename_i even
        refine .ok ⟨rfl, fun mention member here => ?_⟩
        rcases List.mem_cons.mp member with rfl | later
        · exact even
        · exact absurd (List.mem_map.mpr ⟨mention, later, here.trans same.symm⟩) apart.1
      · rename_i uneven
        exact .error ⟨fun all => uneven (all first List.mem_cons_self same), _, rfl⟩
    · rename_i differ
      refine Settles.bind ((ih apart.2).mono (Corrupt.mono fun uneven all => ?_) fun _ => id) fun next further => ?_
      · exact uneven fun mention later => all mention (List.mem_cons_of_mem _ later)
      obtain ⟨rfl, even⟩ := further
      refine .ok ⟨rfl, fun mention member here => ?_⟩
      rcases List.mem_cons.mp member with rfl | later
      · exact absurd here differ
      · exact even mention later here

/-- The check with the buckets taken in another order than the one in which they are found. -/
def verifyIn {n : Nat} (order : List Mention → List Mention) (directory : Directory n) : Outcome Unit := do
  let globalDepth ← directory.globalDepth
  (order (← directory.mentions globalDepth)).forM fun found => do
    let expected := Nat.pow 2 (globalDepth - found.depth)
    if found.count = expected then pure ()
    else throw (.error (.corruptDirectory (.slotCount found.bucket found.count expected)))

theorem verify_eq_verifyIn {n : Nat} (directory : Directory n) : directory.verify = directory.verifyIn id := rfl

section Denotes

variable (denotes : Denotes page state) (shallow : state.globalDepth ≤ maxDirectoryDepth)

include denotes shallow

theorem Denotes.mentions : Settles (Corrupt (¬ state.Counted)) (Tallied state state.size)
    (Directory.mentions ⟨page⟩ state.globalDepth) := by
  rw [Directory.mentions, bind_of_ok _ (denotes.size shallow)]
  -- The tally grows slot by slot, if the slot has a bucket.
  refine (Settles.foldUp (Tallied state) (.start state) fun slot found _ small tallied => ?_).mono (fun _ => id)
    fun found tallied => by rwa [Nat.zero_add] at tallied
  rw [Nat.zero_add] at small
  rw [bind_of_ok _ (denotes.bucket_ok shallow small)]
  cases valid : (state.bucket slot).isValid with
  | false => exact .ok (tallied.skipped valid)
  | true =>
    rw [if_neg (by decide), bind_of_ok _ (denotes.localDepth shallow small)]
    split
    · rename_i deep
      exact .error ⟨fun counted => Nat.not_lt.mpr (counted.depth_le slot small valid) deep, _, rfl⟩
    · rename_i deep
      refine (mention_settles tallied.apart _ _).mono (Corrupt.mono fun uneven counted => uneven ?_)
        fun next further => ?_
      · intro mention member same
        obtain ⟨real, _, old, less, bucket, depth⟩ := tallied.each mention member
        rw [← depth]
        exact counted.depth_eq old (Nat.lt_trans less small) slot small (by rwa [bucket]) (bucket.trans same)
      · obtain ⟨rfl, even⟩ := further
        exact tallied.noted valid (Nat.not_lt.mp deep) even

theorem Denotes.verifyIn_settles {order : List Mention → List Mention} (permutes : ∀ found, (order found).Perm found) :
    Settles (Corrupt (¬ state.Counted)) (fun _ => state.Counted) (Directory.verifyIn order ⟨page⟩) := by
  rw [verifyIn, bind_of_ok _ denotes.globalDepth]
  refine (denotes.mentions shallow).bind fun found tallied => ?_
  have same := fun mention => (permutes found).mem_iff (a := mention)
  refine (Settles.forM fun mention member => ?_).mono (fun _ => id) fun _ right => tallied.counted fun mention member =>
    right mention ((same mention).mpr member)
  dsimp only
  split
  · rename_i right
    exact .ok right
  · rename_i wrong
    refine .error ⟨fun counted => wrong ?_, _, rfl⟩
    obtain ⟨valid, count, slot, small, bucket, depth⟩ := tallied.each mention ((same mention).mp member)
    rw [count, ← bucket, ← depth]
    exact counted.stand_eq slot small (by rwa [bucket])

theorem Denotes.verify_settles :
    Settles (Corrupt (¬ state.Counted)) (fun _ => state.Counted) (Directory.verify ⟨page⟩) := by
  rw [verify_eq_verifyIn]
  exact denotes.verifyIn_settles shallow List.Perm.refl

end Denotes

/-- A check that passes just the pages that are in order, and says of all others that they are corrupt. -/
structure Decides (page : Page) (outcome : Outcome Unit) : Prop where
  ok_iff : outcome = .ok () ↔ (stateOf page).Counted
  corrupt : ¬ (stateOf page).Counted → ∃ fault, outcome = .error (.error (.corruptDirectory fault))

theorem decides_of_settles {outcome : Outcome Unit}
    (settles : Settles (Corrupt (¬ (stateOf page).Counted)) (fun _ => (stateOf page).Counted) outcome) :
    Decides page outcome := by
  cases settles with
  | ok right => exact ⟨iff_of_true rfl right, fun wrong => absurd right wrong⟩
  | error reason =>
    obtain ⟨wrong, fault, rfl⟩ := reason
    exact ⟨iff_of_false nofun wrong, fun _ => ⟨fault, rfl⟩⟩

/-- Whatever else is in a directory page, its check decides whether it is in order, in whatever order it takes the
buckets. -/
theorem verify_decides (tagged : PageKind.directory.Tags page)
    (shallow : (page.wordAt globalDepthAt).toNat ≤ maxDirectoryDepth) : Decides page (Directory.verify ⟨page⟩) ∧
      ∀ order : List Mention → List Mention, (∀ found, (order found).Perm found) →
        Decides page (Directory.verifyIn order ⟨page⟩) := by
  have denotes : Denotes page (stateOf page) := ⟨tagged, rfl⟩
  refine ⟨decides_of_settles (denotes.verify_settles shallow), ?_⟩
  intro order permutes
  exact decides_of_settles (denotes.verifyIn_settles shallow permutes)

/-- A directory with one bucket passes the check, but no longer when the bucket is said to be too deep. -/
theorem verify_decides_one_bucket : ∃ sound spoilt : Page,
    (PageKind.directory.Tags sound ∧ (sound.wordAt globalDepthAt).toNat ≤ maxDirectoryDepth ∧
      Directory.verify ⟨sound⟩ = .ok () ∧ Directory.verifyIn List.reverse ⟨sound⟩ = .ok ()) ∧
    PageKind.directory.Tags spoilt ∧ (spoilt.wordAt globalDepthAt).toNat ≤ maxDirectoryDepth ∧
      ∃ fault, Directory.verify ⟨spoilt⟩ = .error (.error (.corruptDirectory fault)) := by
  have first : 0 < (freshState 1).size := by decide
  have deep : 1 ≤ (freshState 1).maxDepth := by decide
  obtain ⟨formatted, _, denotes⟩ := format_ok (Vector.replicate pageSize 0) (show 1 ≤ maxDirectoryDepth by decide)
  obtain ⟨sound, _, right⟩ := denotes.setBucket (by decide) first ⟨2⟩
  obtain ⟨spoilt, _, wrong⟩ := right.setLocalDepth (by decide) (by decide) first deep
  have flat := congrArg DirectoryState.globalDepth right.state_eq
  have flat_still := congrArg DirectoryState.globalDepth wrong.state_eq
  have counted : (stateOf sound).Counted := by
    rw [right.state_eq]
    exact ⟨by decide, by decide, by decide⟩
  have uncounted : ¬ (stateOf spoilt).Counted := by
    rw [wrong.state_eq]
    intro counted
    exact absurd (counted.depth_le 0 (by decide) (by decide)) (by decide)
  have shallow : (sound.wordAt globalDepthAt).toNat ≤ maxDirectoryDepth := flat.trans_le (by decide)
  have shallow_still : (spoilt.wordAt globalDepthAt).toNat ≤ maxDirectoryDepth := flat_still.trans_le (by decide)
  obtain ⟨verified, others⟩ := verify_decides right.tagged shallow
  exact ⟨sound, spoilt, ⟨right.tagged, shallow, verified.ok_iff.mpr counted,
    (others List.reverse List.reverse_perm).ok_iff.mpr counted⟩, wrong.tagged, shallow_still,
    (verify_decides wrong.tagged shallow_still).1.corrupt uncounted⟩

end Directory

end PagedIndex
