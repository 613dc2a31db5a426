import Mathlib
import PagedIndex.Proofs.Table.Depths

/-!
# Rounds of uniting

In a round one of two halves of a bucket, which is empty, leaves its slots to the other one. However many rounds
there are, they concern the hashes of one prefix only, no entry changes its page, and every round makes the bucket
of the slot one bit less deep. A directory that is halved afterwards sends every hash where it went before.
-/

namespace PagedIndex

namespace DirectoryState

variable {state last : DirectoryState} {slot depth : Nat}

theorem reach_unite (kept emptied : PageId) (depth : Nat) (hash : UInt32) :
    (state.unite kept emptied depth).reach hash =
      if state.home hash = kept ∨ state.home hash = emptied then depth else state.reach hash :=
  (unite_slot kept emptied depth (state.slot_lt hash)).2

/-- What halving leaves of a directory. -/
structure Halved (state last : DirectoryState) : Prop where
  formed : last.Formed
  maxDepth : last.maxDepth = state.maxDepth
  home : ∀ hash, last.home hash = state.home hash
  reach : ∀ hash, last.reach hash = state.reach hash
  mentions : ∀ page, last.Mentions page ↔ state.Mentions page

theorem Formed.halved (formed : state.Formed) (shrinks : Directory.Shrinks state last) : Halved state last := by
  induction shrinks with
  | done => exact ⟨formed, rfl, fun _ => rfl, fun _ => rfl, fun _ => Iff.rfl⟩
  | halved can rest ih =>
    have halved := ih (formed.halve can)
    exact ⟨halved.formed, halved.maxDepth, fun hash => (halved.home hash).trans (formed.home_halve can hash),
      fun hash => (halved.reach hash).trans (formed.reach_halve can hash),
      fun page => (halved.mentions page).trans (formed.mentions_halve_iff can page)⟩

theorem Formed.deepest (formed : state.Formed) (least : ¬ state.CanHalve) :
    ∃ slot < state.size, state.depth slot = state.globalDepth := by
  by_contra none
  refine least ⟨Nat.pos_of_ne_zero fun flat => ?_, fun slot small => ?_⟩
  · refine none ⟨0, state.size_pos, ?_⟩
    have below := formed.depth_le 0 state.size_pos
    omega
  · refine lt_of_le_of_ne (formed.depth_le slot small) fun full => none ⟨slot, small, full⟩

theorem Formed.image_deeper (formed : state.Formed) (small : slot < state.size) (deep : state.depth slot = depth + 1)
    (other : state.depth (slot ^^^ 2 ^ depth) ≠ depth + 1) : depth + 1 < state.depth (slot ^^^ 2 ^ depth) := by
  have below := formed.depth_le slot small
  have less := image_lt small (by omega : depth < state.globalDepth)
  by_contra shallow
  -- A bucket that does not see the bit in which the two slots differ would be in both of them.
  have low := mod_of_mod_le (by omega : state.depth (slot ^^^ 2 ^ depth) ≤ depth) (xor_mod slot depth)
  have same := formed.depth_congr less small low
  omega

theorem Formed.unite_at (formed : state.Formed) {kept emptied : Nat} (buddies : state.Buddies depth kept emptied)
    (small : slot < state.size) (low : kept % 2 ^ depth = slot % 2 ^ depth) :
    (state.unite (state.bucket kept) (state.bucket emptied) depth).bucket (slot % 2 ^ depth) = state.bucket kept ∧
      (state.unite (state.bucket kept) (state.bucket emptied) depth).depth (slot % 2 ^ depth) = depth := by
  have less : slot % 2 ^ depth < state.size := Nat.lt_of_le_of_lt (Nat.mod_le _ _) small
  have inside := (formed.half_iff buddies less).mpr (low.trans (Nat.mod_mod _ _).symm)
  rw [(unite_slot _ _ _ less).1, (unite_slot _ _ _ less).2, if_pos inside, if_pos inside]
  exact ⟨rfl, rfl⟩

end DirectoryState

namespace Table

open DirectoryState

variable {K V : Type} {hash : K → UInt32} {state next last : DirectoryState} {entries : List (K × V)}
  {slot depth kept emptied final count more : Nat}

/-- At a slot, the bucket is one of two halves; of those, one is empty and the other one takes the slots of both, one
bit less deep. -/
structure Round (hash : K → UInt32) (entries : List (K × V)) (state : DirectoryState) (slot depth kept emptied : Nat) :
    Prop where
  buddies : state.Buddies depth kept emptied
  deep : state.depth slot = depth + 1
  low : kept % 2 ^ depth = slot % 2 ^ depth
  lower : (state.unite (state.bucket kept) (state.bucket emptied) depth).depth (slot % 2 ^ depth) = depth
  mentioned : state.Mentions (state.bucket kept)
  nothing : routed hash state.home (state.bucket emptied) entries = []

/-- So many rounds, from a slot on. The next slot has the bits that the bucket still looks at. -/
inductive Rounds (hash : K → UInt32) (entries : List (K × V)) :
    Nat → DirectoryState → Nat → DirectoryState → Nat → Prop where
  | nothing {state : DirectoryState} {slot : Nat} : Rounds hash entries 0 state slot state slot
  | round {state last : DirectoryState} {slot depth kept emptied final count : Nat}
      (once : Round hash entries state slot depth kept emptied)
      (rest : Rounds hash entries count (state.unite (state.bucket kept) (state.bucket emptied) depth)
        (slot % 2 ^ depth) last final) : Rounds hash entries (count + 1) state slot last final

/-- Why no further round is made: the bucket is whole, its other half was split again, or both hold entries. -/
inductive Halted (hash : K → UInt32) (entries : List (K × V)) (state : DirectoryState) (slot : Nat) : Prop where
  | whole (flat : state.depth slot = 0)
  | deeper {depth : Nat} (deep : state.depth slot = depth + 1) (split : depth + 1 < state.depth (slot ^^^ 2 ^ depth))
  | filled {depth : Nat} (deep : state.depth slot = depth + 1) (level : state.depth (slot ^^^ 2 ^ depth) = depth + 1)
      (some_here : routed hash state.home (state.bucket slot) entries ≠ [])
      (some_there : routed hash state.home (state.bucket (slot ^^^ 2 ^ depth)) entries ≠ [])

theorem round_of_empty (formed : state.Formed) (buddies : state.Buddies depth kept emptied) (small : slot < state.size)
    (deep : state.depth slot = depth + 1) (low : kept % 2 ^ depth = slot % 2 ^ depth)
    (mentioned : state.Mentions (state.bucket kept))
    (nothing : (routed hash state.home (state.bucket emptied) entries).length = 0) :
    Round hash entries state slot depth kept emptied where
  buddies := buddies
  deep := deep
  low := low
  lower := (formed.unite_at buddies small low).2
  mentioned := mentioned
  nothing := List.eq_nil_of_length_eq_zero nothing

theorem halted_of_no_buddy (formed : state.Formed) (small : slot < state.size)
    (mentioned : state.Mentions (state.bucket slot)) (none : state.buddy? slot (state.bucket slot) = none) :
    Halted hash entries state slot := by
  by_cases flat : state.depth slot = 0
  · exact .whole flat
  · obtain ⟨depth, deep⟩ := Nat.exists_eq_succ_of_ne_zero flat
    have apart := formed.image_of_no_buddy small (formed.mentions_valid mentioned) none deep
    exact .deeper deep (formed.image_deeper small deep apart)

/-- What rounds make of a directory. -/
structure United (hash : K → UInt32) (entries : List (K × V)) (count : Nat) (state : DirectoryState) (slot : Nat)
    (last : DirectoryState) (final : Nat) : Prop where
  formed : last.Formed
  globalDepth : last.globalDepth = state.globalDepth
  maxDepth : last.maxDepth = state.maxDepth
  small : final < last.size
  mentioned : last.Mentions (last.bucket final)
  depth : last.depth final + count = state.depth slot
  low : final % 2 ^ last.depth final = slot % 2 ^ last.depth final
  home : ∀ key, last.home key =
    if key.toNat % 2 ^ last.depth final = slot % 2 ^ last.depth final then last.bucket final else state.home key
  reach : ∀ key, last.reach key =
    if key.toNat % 2 ^ last.depth final = slot % 2 ^ last.depth final then last.depth final else state.reach key
  shelved : ∀ page, routed hash last.home page entries = routed hash state.home page entries
  mentions : ∀ page, last.Mentions page → state.Mentions page
  dropped : ∀ page, state.Mentions page → ¬ last.Mentions page → routed hash state.home page entries = []

theorem United.nothing (formed : state.Formed) (small : slot < state.size)
    (mentioned : state.Mentions (state.bucket slot)) : United hash entries 0 state slot state slot where
  formed := formed
  globalDepth := rfl
  maxDepth := rfl
  small := small
  mentioned := mentioned
  depth := rfl
  low := rfl
  home key := by
    split
    · rename_i here
      exact (formed.home_eq_iff small key).mpr here.symm
    · rfl
  reach key := by
    split
    · rename_i here
      exact formed.depth_eq _ (state.slot_lt key) slot small ((formed.home_eq_iff small key).mpr here.symm)
    · rfl
  shelved _ := rfl
  mentions _ := id
  dropped _ there gone := absurd there gone

/-- A round concerns the hashes that agree with the slot in the bits before the split. -/
theorem Round.united (once : Round hash entries state slot depth kept emptied) (formed : state.Formed)
    (small : slot < state.size) : United hash entries 1 state slot
      (state.unite (state.bucket kept) (state.bucket emptied) depth) (slot % 2 ^ depth) := by
  have less : slot % 2 ^ depth < state.size := Nat.lt_of_le_of_lt (Nat.mod_le _ _) small
  have deep := once.deep
  have below := formed.depth_le slot small
  have half : ∀ key, state.home key = state.bucket kept ∨ state.home key = state.bucket emptied ↔
      key.toNat % 2 ^ depth = slot % 2 ^ depth := fun key => by
    rw [DirectoryState.home, formed.half_iff once.buddies (state.slot_lt key), once.low, mod_size_mod (by omega),
      eq_comm]
  have here := (formed.unite_at once.buddies small once.low).1
  have mentions : ∀ page, (state.unite (state.bucket kept) (state.bucket emptied) depth).Mentions page ↔
      state.Mentions page ∧ page ≠ state.bucket emptied := mentions_unite_iff once.mentioned once.buddies.apart
  refine {
    formed := formed.unite once.buddies (formed.mentions_valid once.mentioned)
    globalDepth := rfl
    maxDepth := rfl
    small := less
    mentioned := ?_
    depth := ?_
    low := ?_
    home := fun key => ?_
    reach := fun key => ?_
    shelved := fun page => routed_unite once.nothing
    mentions := fun page there => ((mentions page).mp there).1
    dropped := fun page there gone => ?_ }
  · rw [here, mentions]
    exact ⟨once.mentioned, once.buddies.apart⟩
  · rw [once.lower, deep]
  · rw [once.lower]
    exact Nat.mod_mod _ _
  · rw [once.lower, here, home_unite]
    simp only [half]
  · rw [once.lower, reach_unite]
    simp only [half]
  · rw [mentions] at gone
    obtain rfl : page = state.bucket emptied := by
      by_contra other
      exact gone ⟨there, other⟩
    exact once.nothing

theorem United.trans (first : United hash entries count state slot next final) {rest : DirectoryState} {goal : Nat}
    (second : United hash entries more next final rest goal) :
    United hash entries (more + count) state slot rest goal := by
  have shorter := second.depth
  have less : rest.depth goal ≤ next.depth final := by omega
  have low : final % 2 ^ rest.depth goal = slot % 2 ^ rest.depth goal := mod_of_mod_le less first.low
  -- What agrees with the slot in more bits agrees with it in fewer.
  have outside : ∀ key : UInt32, key.toNat % 2 ^ rest.depth goal ≠ slot % 2 ^ rest.depth goal →
      key.toNat % 2 ^ next.depth final ≠ slot % 2 ^ next.depth final := fun key apart same =>
    apart (mod_of_mod_le less same)
  refine {
    formed := second.formed
    globalDepth := second.globalDepth.trans first.globalDepth
    maxDepth := second.maxDepth.trans first.maxDepth
    small := second.small
    mentioned := second.mentioned
    depth := by rw [← first.depth, ← second.depth, Nat.add_assoc]
    low := second.low.trans low
    home := fun key => ?_
    reach := fun key => ?_
    shelved := fun page => (second.shelved page).trans (first.shelved page)
    mentions := fun page there => first.mentions page (second.mentions page there)
    dropped := fun page there gone => ?_ }
  · rw [second.home, low]
    split
    · rfl
    · rename_i apart
      rw [first.home, if_neg (outside key apart)]
  · rw [second.reach, low]
    split
    · rfl
    · rename_i apart
      rw [first.reach, if_neg (outside key apart)]
  · by_cases still : next.Mentions page
    · exact (first.shelved page).symm.trans (second.dropped page still gone)
    · exact first.dropped page there still

theorem Rounds.united (rounds : Rounds hash entries count state slot last final) (formed : state.Formed)
    (small : slot < state.size) (mentioned : state.Mentions (state.bucket slot)) :
    United hash entries count state slot last final := by
  induction rounds with
  | nothing => exact .nothing formed small mentioned
  | round once rest ih =>
    have united := once.united formed small
    exact united.trans (ih united.formed united.small united.mentioned)

theorem Rounds.trans (first : Rounds hash entries count state slot next final) {rest : DirectoryState} {goal : Nat}
    (second : Rounds hash entries more next final rest goal) :
    Rounds hash entries (more + count) state slot rest goal := by
  induction first with
  | nothing => exact second
  | round once _ ih => exact .round once (ih second)

theorem Rounds.unites (rounds : Rounds hash entries count state slot last final) (formed : state.Formed)
    (small : slot < state.size) (halted : Halted hash entries last final) : Unites hash entries state slot last := by
  induction rounds with
  | @nothing state slot =>
    refine .stuck fun depth deep level => ?_
    cases halted with
    | whole flat => omega
    | deeper deep_here split =>
      obtain rfl := Nat.succ.inj (deep.symm.trans deep_here)
      omega
    | filled deep_here _ some_here =>
      obtain rfl := Nat.succ.inj (deep.symm.trans deep_here)
      have some_entry := List.length_pos_of_ne_nil some_here
      rw [length_routed formed small] at some_entry
      exact Nat.lt_of_lt_of_le some_entry (load_anti (by omega) slot entries)
  | round once rest ih =>
    have united := once.united formed small
    exact .united united.formed (formed.joins once.buddies once.deep once.low) (ih united.formed united.small halted)

end Table

end PagedIndex
