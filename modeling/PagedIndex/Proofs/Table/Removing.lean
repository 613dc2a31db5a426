import Mathlib
import PagedIndex.Proofs.Table.Inserting
import PagedIndex.Proofs.Table.Uniting
import PagedIndex.Table.Remove

/-!
# Removing keeps the other entries

Buckets that are united with their buddies, and directories that shrink, hold what they held before.
-/

namespace PagedIndex.Table

open DirectoryState
open Pool (Runs keeping holding entrusting view edit amend)

variable {K V σ : Type} [FixedWidth K] [FixedWidth V] [BackingStore σ] [PageKeeper σ]
  {leases : List Lease} {terms : Pool.Terms} {table : Table K V} {memory later : Memory} {directory bucket : PageId}
  {state : DirectoryState} {limit slot : Nat} {entries : List (K × V)} {key : K} {hash : K → UInt32}

theorem isEmptyIn_ok {page : Page} {list : List (K × V)} (holds : Bucket.Holds page limit list) :
    isEmptyIn K V page = .ok (decide (list.length = 0)) := by
  rw [isEmptyIn, bind_of_ok _ holds.ofBytes, holds.isEmpty]

/-! ### Uniting -/

/-- Rounds of uniting have led from one directory to a second one, and this now sends every hash where the second did.
Only the directory page and the pages that it has let go of have changed. -/
structure Folded (hash : K → UInt32) (directory : PageId) (limit : Nat) (entries : List (K × V)) (before after : Annals)
    (state : DirectoryState) (slot count : Nat) (middle : DirectoryState) (final : Nat) (last : DirectoryState) :
    Prop where
  rounds : Rounds hash entries count state slot middle final
  houses : Houses hash after.toPages directory last limit entries
  content : ∀ page, page ≠ directory → (state.Mentions page → middle.Mentions page) →
    after.content page = before.content page
  next : after.next = before.next
  tends : Tends directory before after

/-- The page of an emptied bucket may show anything after it was deleted: the directory has let go of it before. -/
theorem Houses.united {pages : Annals} (houses : Houses hash pages.toPages directory state limit entries)
    {bytes : Page} {depth x y : Nat} (buddies : state.Buddies depth x y) (mentioned : state.Mentions (state.bucket x))
    (nothing : routed hash state.home (state.bucket y) entries = [])
    (denotes : Directory.Denotes bytes (state.unite (state.bucket x) (state.bucket y) depth)) (gone : Bool)
    (waste : Page) {seen : Pages} (shown : (pages.write directory bytes).toPages.Shown seen) :
    Houses hash ((pages.write directory bytes).drop (state.bucket y) gone waste seen).toPages directory
        (state.unite (state.bucket x) (state.bucket y) depth) limit entries ∧
      Tends directory pages ((pages.write directory bytes).drop (state.bucket y) gone waste seen) := by
  have full := houses.shelves.formed.mentions_valid mentioned
  have mentioned_y : state.Mentions (state.bucket y) := ⟨full y buddies.small_y, y, buddies.small_y, rfl⟩
  have mentions : ∀ page, (state.unite (state.bucket x) (state.bucket y) depth).Mentions page ↔
      state.Mentions page ∧ page ≠ state.bucket y := mentions_unite_iff mentioned buddies.apart
  have apart := houses.apart mentioned_y
  have linked : Houses hash (pages.write directory bytes).toPages directory _ limit entries :=
    (houses.shelves.unite buddies mentioned nothing).linked houses.denotes.tagged houses.issued denotes
  have unreached : ¬ Reaches (pages.write directory bytes).toPages directory (state.bucket y) := by
    rw [linked.reaches_iff, mentions, not_or]
    exact ⟨apart, fun both => both.2 rfl⟩
  have left : ∀ page, page ≠ state.bucket y →
      ((pages.write directory bytes).drop (state.bucket y) gone waste seen).content page =
        (pages.write directory bytes).content page := fun page other => by
    simp [Annals.drop, Annals.write, other]
  have ends : Houses hash ((pages.write directory bytes).drop (state.bucket y) gone waste seen).toPages directory _
      limit entries :=
    linked.congr (fun page reached => left page fun same => unreached (same ▸ reached)) (UInt32.le_refl _)
  have same : ∀ page, page ≠ directory → (pages.write directory bytes).content page = pages.content page :=
    fun page other => by simp [Annals.write, other]
  have minds : Minds (Reaches · directory) pages.toPages (pages.write directory bytes).toPages :=
    houses.minds linked (UInt32.le_refl _) (fun page _ other _ => same page other) fun page there =>
      .inl ((mentions page).mp there).1
  have idle : Idle (Reaches · directory) pages.toPages (state.bucket y) seen := by
    have reaches : ∀ page, Reaches seen directory page ↔ Reaches (pages.write directory bytes).toPages directory page :=
      fun page => reaches_congr (shown.content directory linked.denotes.written)
    refine ⟨minds.shown shown fun page => (reaches page).mp, fun reached => unreached ((reaches _).mp reached), ?_⟩
    have holds := houses.shelves.holds _ mentioned_y
    rw [nothing, ← same _ apart] at holds
    rw [shown.content _ holds.written]
    exact holds.vacated
  refine ⟨ends, .of_dropped rfl rfl (houses.minds ends (UInt32.le_refl _) (fun page _ other out => ?_)
    fun page there => ?_) (houses.shelves.issued _ mentioned_y) (fun page => ?_) ?_ idle⟩
  · refine (left page ?_).trans (same page other)
    rintro rfl
    exact out mentioned_y
  · exact .inl ((mentions page).mp there).1
  · rw [houses.reaches_iff, ends.reaches_iff, mentions]
    by_cases here : page = state.bucket y
    · simp [here, mentioned_y]
    · simp [here]
  · rw [ends.reaches_iff, mentions, not_or]
    exact ⟨apart, fun both => both.2 rfl⟩

theorem Folded.nothing {annals : Annals} (houses : Houses hash annals.toPages directory state limit entries)
    (slot : Nat) :
    Folded hash directory limit entries annals annals state slot 0 state slot state :=
  ⟨.nothing, houses, fun _ _ _ => rfl, rfl, .refl _ annals⟩

theorem Folded.trans {before between after : Annals} {next middle last : DirectoryState} {count more goal final : Nat}
    (first : Folded hash directory limit entries before between state slot count next goal next)
    (second : Folded hash directory limit entries between after next goal more middle final last)
    (formed : state.Formed) (small : slot < state.size) (mentioned : state.Mentions (state.bucket slot)) :
    Folded hash directory limit entries before after state slot (more + count) middle final last := by
  have united := first.rounds.united formed small mentioned
  have united_rest := second.rounds.united united.formed united.small united.mentioned
  refine ⟨first.rounds.trans second.rounds, second.houses, fun page other stays => ?_, second.next.trans first.next,
    first.tends.trans second.tends⟩
  -- What the last directory mentions was mentioned by all before it.
  rw [second.content page other fun there => stays (united.mentions page there)]
  exact first.content page other fun there => united_rest.mentions page (stays there)

theorem absorb_runs (houses : Houses hash memory.toPages directory state limit entries) {depth kept emptied : Nat}
    (once : Round hash entries state slot depth kept emptied) (small : slot < state.size)
    (held : memory.pins = {state.bucket emptied, state.bucket kept, directory}) (failed : Memory → Prop) :
    Runs leases terms (absorb directory depth (state.bucket kept) (state.bucket emptied) : Pool.Action σ Unit) memory
      (fun _ later => ∃ last, last.bucket (slot % 2 ^ depth) = state.bucket kept ∧
        later.pins = {state.bucket kept, directory} ∧
        Folded hash directory limit entries memory.toAnnals later.toAnnals state slot 1 last (slot % 2 ^ depth) last)
      failed := by
  have formed := houses.shelves.formed
  have deep := formed.depth_le kept once.buddies.small_x
  rw [once.buddies.depth_x] at deep
  have within : depth ≤ state.maxDepth := by
    have bound := formed.shallow
    omega
  obtain ⟨bytes, united, denotes⟩ := houses.denotes.unite houses.shallow formed.limited (state.bucket kept)
    (state.bucket emptied) within
  refine Runs.step (Runs.amend bytes (by simp [held]) ?_) ?_
  · rw [bind_of_ok _ houses.denotes.ofBytes, bind_of_ok _ united]
    rfl
  refine Runs.step (Runs.unpin held) ?_
  have full := formed.mentions_valid once.mentioned
  have mentioned : state.Mentions (state.bucket emptied) :=
    ⟨full emptied once.buddies.small_y, emptied, once.buddies.small_y, rfl⟩
  have other : state.bucket emptied ≠ directory := houses.apart mentioned
  refine Runs.bind (Runs.delete (by simpa using ⟨once.buddies.apart.symm, other⟩)) fun gone later wasted => Runs.pure ?_
  obtain ⟨waste, seen, shown, rfl⟩ := wasted
  obtain ⟨ends, tends⟩ := houses.united once.buddies once.mentioned once.nothing denotes gone waste shown
  refine ⟨_, (formed.unite_at once.buddies small once.low).1, rfl, .round once .nothing, ends,
    fun page apart stays => ?_, rfl, tends⟩
  have differ : page ≠ state.bucket emptied := by
    rintro rfl
    exact ((mentions_unite_iff once.mentioned once.buddies.apart _).mp (stays mentioned)).2 rfl
  change ((memory.write directory bytes).write (state.bucket emptied) waste).content page = memory.content page
  rw [Memory.content_write, if_neg differ, Memory.content_write, if_neg apart]

theorem uniteOnce_runs (houses : Houses hash memory.toPages directory state limit entries)
    (small : slot < state.size) (mentioned : state.Mentions (state.bucket slot))
    (held : memory.pins = {state.bucket slot, directory}) :
    Runs leases terms (uniteOnce K V directory slot (state.bucket slot) : Pool.Action σ (Option (Nat × PageId))) memory
      (fun answer later => match answer with
        | none => later = memory ∧ Halted hash entries state slot
        | some (next, kept) => ∃ last, last.bucket next = kept ∧ later.pins = {kept, directory} ∧
          Folded hash directory limit entries memory.toAnnals later.toAnnals state slot 1 last next last)
      (fun later => later = memory) := by
  have formed := houses.shelves.formed
  have full := formed.mentions_valid mentioned
  refine Runs.step (Runs.view (state.buddy? slot (state.bucket slot)) (by simp [held]) ?_) ?_
  · rw [bind_of_ok _ houses.denotes.ofBytes]
    exact houses.denotes.buddy? houses.shallow small (formed.depth_le slot small) _
  cases found : state.buddy? slot (state.bucket slot) with
  | none =>
    exact Runs.pure ⟨rfl, halted_of_no_buddy formed small mentioned found⟩
  | some buddy =>
    obtain ⟨_, image⟩ := buddy
    obtain ⟨depth, rfl, buddies, rfl⟩ := formed.buddies_of_buddy? small found
    let other := slot ^^^ 2 ^ depth
    have mentioned_other : state.Mentions (state.bucket other) :=
      ⟨full other buddies.small_y, other, buddies.small_y, rfl⟩
    have holds := houses.shelves.holds _ mentioned
    have holds_other := houses.shelves.holds _ mentioned_other
    have issued := houses.shelves.issued _ mentioned_other
    have unpinned : state.bucket other ∉ memory.pins := by
      simpa [held] using ⟨buddies.apart.symm, houses.apart mentioned_other⟩
    refine Runs.bind (Runs.fetch rfl issued (by simp [held]) unpinned holds_other.written) fun id fetched known => ?_
    subst known
    refine Runs.entrusting memory.pins ?_
    refine Runs.step (Runs.view _ (by simp [held]) (isEmptyIn_ok holds)) ?_
    refine Runs.step (Runs.view _ (Multiset.mem_cons_self _ _) (isEmptyIn_ok holds_other)) ?_
    have under_pin : Houses hash (memory.pin (state.bucket other)).toPages directory state limit entries := houses
    have both : (memory.pin (state.bucket other)).pins = {state.bucket other, state.bucket slot, directory} := by
      rw [Memory.pins_pin, held]
      rfl
    have swapped : (memory.pin (state.bucket other)).pins = {state.bucket slot, state.bucket other, directory} :=
      both.trans (Multiset.cons_swap _ _ _)
    -- The empty one of the two is absorbed; the bucket of the slot is asked first.
    by_cases empty : (routed hash state.home (state.bucket slot) entries).length = 0
    · have once : Round hash entries state slot depth other slot :=
        round_of_empty formed buddies.symm small buddies.depth_x buddies.low.symm mentioned_other empty
      simp only [empty]
      exact Runs.bind (absorb_runs under_pin once small swapped _) fun _ later folded => Runs.pure folded
    · by_cases empty_other : (routed hash state.home (state.bucket other) entries).length = 0
      · have once : Round hash entries state slot depth slot other :=
          round_of_empty formed buddies small buddies.depth_x rfl mentioned empty_other
        simp only [empty, empty_other]
        exact Runs.bind (absorb_runs under_pin once small both _) fun _ later folded => Runs.pure folded
      · simp only [empty, empty_other]
        refine Runs.step (Runs.unpin rfl) (Runs.pure ⟨rfl, .filled buddies.depth_x buddies.depth_y ?_ ?_⟩)
        · exact fun none => empty (List.length_eq_zero_iff.mpr none)
        · exact fun none => empty_other (List.length_eq_zero_iff.mpr none)

/-- Uniting comes to its end within as many rounds as the bucket is deep, with the pin given back. A failure comes
after some rounds, of which each is done in full. -/
theorem uniteWithin_runs {rounds : Nat} (houses : Houses hash memory.toPages directory state limit entries)
    (small : slot < state.size) (mentioned : state.Mentions (state.bucket slot))
    (held : memory.pins = {state.bucket slot, directory}) (enough : state.depth slot ≤ rounds) :
    Runs leases terms (uniteWithin K V directory rounds slot (state.bucket slot) : Pool.Action σ Unit) memory
      (fun _ later => later.pins = {directory} ∧ ∃ count last final, Halted hash entries last final ∧
        Folded hash directory limit entries memory.toAnnals later.toAnnals state slot count last final last)
      (fun later => later.pins = {directory} ∧ ∃ count last final,
        Folded hash directory limit entries memory.toAnnals later.toAnnals state slot count last final last) := by
  -- Induction on the rounds: the page that is pinned beside the directory is the bucket of the slot.
  induction rounds generalizing memory state slot with
  | zero =>
    have flat : state.depth slot = 0 := Nat.le_zero.mp enough
    exact Runs.step (Runs.unpin held) (Runs.pure ⟨rfl, _, _, _, .whole flat, .nothing houses slot⟩)
  | succ rounds ih =>
    have formed := houses.shelves.formed
    have once : Runs leases terms (uniteOnce K V directory slot _ : Pool.Action σ _) _ _ _ :=
      uniteOnce_runs houses small mentioned held
    refine Runs.bind (Runs.entrusting {directory} (once.mono (fun _ _ => id) ?_)) fun answer later known => ?_
    · rintro later rfl
      exact ⟨held, rfl, _, _, _, .nothing houses slot⟩
    · cases answer with
      | none =>
        obtain ⟨rfl, halted⟩ := known
        exact Runs.step (Runs.unpin held) (Runs.pure ⟨rfl, _, _, _, halted, .nothing houses slot⟩)
      | some answer =>
        -- The bucket that is left is one bit less deep: `enough` holds of what is left.
        obtain ⟨next, kept⟩ := answer
        obtain ⟨middle, rfl, held, folded⟩ := known
        have united := folded.rounds.united formed small mentioned
        have shallower := united.depth
        refine (ih folded.houses united.small united.mentioned held (by omega)).mono (fun _ _ ended => ?_)
          fun _ failed => ?_
        · obtain ⟨pins, count, last, final, halted, rest⟩ := ended
          exact ⟨pins, _, _, _, halted, folded.trans rest formed small mentioned⟩
        · obtain ⟨pins, count, last, final, rest⟩ := failed
          exact ⟨pins, _, _, _, folded.trans rest formed small mentioned⟩

theorem reclaim_runs (houses : Houses hash memory.toPages directory state limit entries)
    (small : slot < state.size) (mentioned : state.Mentions (state.bucket slot))
    (held : memory.pins = {state.bucket slot, directory}) :
    Runs leases terms (reclaim K V directory slot (state.bucket slot) : Pool.Action σ Unit) memory
      (fun _ later => later.pins = {directory} ∧ ∃ count middle final last, Halted hash entries middle final ∧
        Directory.Shrinks middle last ∧ ¬ last.CanHalve ∧
        Folded hash directory limit entries memory.toAnnals later.toAnnals state slot count middle final last)
      (fun later => later.pins = {directory} ∧ ∃ count last final,
        Folded hash directory limit entries memory.toAnnals later.toAnnals state slot count last final last) := by
  have pinned : directory ∈ memory.pins := by simp [held]
  have formed := houses.shelves.formed
  have sizes : Runs leases terms (do
        Pool.touch directory
        view directory fun page => do (← Directory.ofBytes page).size : Pool.Action σ Nat) memory
      (fun rounds next => rounds = state.size ∧ next = memory) fun _ => False := by
    refine Runs.step ((Pool.Gives.touch pinned).runs (.of_same rfl rfl)) (Runs.view _ pinned ?_)
    rw [bind_of_ok _ houses.denotes.ofBytes, houses.denotes.size houses.shallow]
  refine Runs.step (Runs.entrusting {directory} (sizes.mono (fun _ _ => id) fun _ => False.elim)) ?_
  have enough : state.depth slot ≤ state.size :=
    Nat.le_trans (formed.depth_le slot small) (Nat.le_of_lt state.globalDepth.lt_two_pow_self)
  refine Runs.bind (uniteWithin_runs houses small mentioned held enough) fun _ later ended => ?_
  obtain ⟨pins, count, middle, final, halted, folded⟩ := ended
  have ends := folded.houses
  obtain ⟨bytes, last, done, denotes, shrinks, least⟩ := ends.denotes.halveFully ends.shallow
  refine Runs.finish (Runs.amend bytes (by simp [pins]) ?_) ?_
  · rw [bind_of_ok _ ends.denotes.ofBytes, bind_of_ok _ done]
    rfl
  · have halved := ends.shelves.formed.halved shrinks
    have shelves := ends.shelves.of_home halved.formed halved.home fun page => (halved.mentions page).mp
    have shrunk := shelves.linked ends.denotes.tagged ends.issued denotes
    have others : ∀ page, page ≠ directory → (later.write directory bytes).content page = later.content page :=
      fun page other => by simp [other]
    refine ⟨pins, count, middle, final, last, halted, shrinks, least, folded.rounds, shrunk, fun page other stays =>
      (others page other).trans (folded.content page other stays), folded.next, folded.tends.trans ?_⟩
    exact ends.tends_same shrunk rfl rfl (fun page other _ => others page other) halved.mentions

/-! ### Whole removals -/

theorem eraseIn_gives (leases : List Lease)
    (houses : Houses table.hash memory.toPages directory state limit entries)
    (valid : (state.home (table.hash key)).isValid = true) (held : state.home (table.hash key) ∈ memory.pins) :
    let shelf := routed table.hash state.home (state.home (table.hash key))
    let rest := shelf (struck table.hash state.home table.compare key entries)
    under table.compare key (shelf entries) ≠ [] → ∃ left, Bucket.Holds left limit rest ∧
      Pool.Gives leases (table.eraseIn (state.home (table.hash key)) key : Pool.Action σ (Option Bool)) memory
        (some (decide (rest.length = 0))) (memory.write (state.home (table.hash key)) left) := by
  intro shelf rest found
  have holds := houses.shelves.holds _ (mentions_home valid)
  obtain ⟨left, erased, kept, _⟩ := holds.erase table.compare key
  have shelved : Bucket.Holds left limit rest := by
    rw [show rest = _ from routed_struck_home ..]
    exact kept
  refine ⟨left, shelved, Pool.Gives.step (Pool.Gives.view (under table.compare key (shelf entries)) held ?_) ?_⟩
  · rw [bind_of_ok _ holds.ofBytes, holds.lookup]
    rfl
  rw [if_neg (by simpa using found)]
  refine Pool.Gives.edit _ left held ?_
  rw [bind_of_ok _ holds.ofBytes, bind_of_ok _ erased]
  dsimp only
  rw [bind_of_ok _ shelved.isEmpty]
  rfl

theorem eraseIn_runs (houses : Houses table.hash memory.toPages directory state limit entries)
    (valid : (state.home (table.hash key)).isValid = true)
    (held : state.home (table.hash key) ∈ memory.pins) (failed : Memory → Prop) :
    Runs leases terms (table.eraseIn (state.home (table.hash key)) key : Pool.Action σ (Option Bool)) memory
      (fun answer later =>
        (answer = none ↔
          under table.compare key (routed table.hash state.home (state.home (table.hash key)) entries) = []) ∧
        (answer = none → later = memory) ∧
        (answer = some false → routed table.hash state.home (state.home (table.hash key))
          (struck table.hash state.home table.compare key entries) ≠ []) ∧
        later.pins = memory.pins ∧
        Houses table.hash later.toPages directory state limit (struck table.hash state.home table.compare key entries) ∧
        Tends directory memory.toAnnals later.toAnnals) failed := by
  have mentioned := mentions_home valid
  by_cases nothing : under table.compare key (routed table.hash state.home (state.home (table.hash key)) entries) = []
  · have holds := houses.shelves.holds _ mentioned
    refine Runs.step (Runs.view [] held ?_) ?_
    · rw [bind_of_ok _ holds.ofBytes, holds.lookup, ← nothing]
      rfl
    refine Runs.pure ⟨iff_of_true rfl nothing, fun _ => rfl, nofun, rfl, ?_, .refl _ memory.toAnnals⟩
    rw [struck_of_none nothing]
    exact houses
  · obtain ⟨left, shelved, gives⟩ := eraseIn_gives (σ := σ) leases houses valid held nothing
    obtain ⟨ends, tends⟩ := houses.rewritten mentioned shelved fun other differ =>
      routed_struck_other key entries differ
    exact (gives.runs (.of_same rfl rfl)).finish
      ⟨iff_of_false nofun nothing, nofun, by simp, rfl, ends, tends⟩

/-- The entries under a key are gone, or the operation has failed before they were. -/
def Reduced (table : Table K V) (directory : PageId) (state : DirectoryState) (key : K) (entries : List (K × V))
    (memory later : Memory) : Prop :=
  Settled table.hash directory entries memory later ∨
    Settled table.hash directory (struck table.hash state.home table.compare key entries) memory later

theorem removeIn_runs (houses : Houses table.hash memory.toPages directory state limit entries)
    (pinned : memory.pins = {directory}) :
    Runs leases terms (table.removeIn directory key : Pool.Action σ Bool) memory
      (fun removed later =>
        (removed = true ↔
          under table.compare key (routed table.hash state.home (state.home (table.hash key)) entries) ≠ []) ∧
        (removed = false → later = memory) ∧
        Turned table.hash directory (struck table.hash state.home table.compare key entries) (fun last _ =>
          Sheds table.hash (table.hash key) entries (struck table.hash state.home table.compare key entries) state last)
          memory later)
      (Reduced table directory state key entries memory) := by
  refine Runs.step (Runs.view _ (by simp [pinned]) (houses.bucketIn (table.hash key))) ?_
  dsimp only
  by_cases valid : (state.home (table.hash key)).isValid = true
  · have mentioned := mentions_home valid
    rw [valid]
    refine Runs.bind (Runs.fetch (.inl houses.settled) (houses.shelves.issued _ mentioned) (by simp [pinned])
      (by simpa [pinned] using houses.apart mentioned) (houses.shelves.holds _ mentioned).written)
      fun id fetched known => ?_
    subst known
    have under_pin : Houses table.hash (memory.pin (state.home (table.hash key))).toPages directory state limit
        entries := houses
    refine Runs.bind (Runs.entrusting memory.pins (eraseIn_runs under_pin valid (Multiset.mem_cons_self _ _) _))
      fun answer later erased => ?_
    obtain ⟨answered, still, left, pins, ends, tends⟩ := erased
    have near : ∀ entry ∈ entries, entry ∉ struck table.hash state.home table.compare key entries →
        state.home (table.hash entry.1) = state.home (table.hash key) := fun entry => route_of_struck
    cases answer with
    | none =>
      have nothing := answered.mp rfl
      obtain rfl := still rfl
      exact Runs.step (Runs.unpin pins)
        (Runs.pure ⟨by simp [nothing], fun _ => rfl, rfl, ⟨_, _, ends, .kept (struck_of_none nothing)⟩, tends⟩)
    | some emptied =>
      have something := mt answered.mpr nofun
      dsimp only
      cases emptied with
      | true =>
        -- A failure from here on leaves the entries erased.
        have reclaims : Runs leases terms (reclaim K V directory _ _ : Pool.Action σ Unit) later _ _ :=
          reclaim_runs ends (state.slot_lt _) mentioned (pins.trans (by rw [Memory.pins_pin, pinned]; rfl))
        refine Runs.bind (reclaims.mono (fun _ _ reclaimed => reclaimed) fun _ failed => ?_)
          fun _ last reclaimed => Runs.pure ?_
        · obtain ⟨pins_last, _, _, _, folded⟩ := failed
          exact .inr ⟨pins_last.trans pinned.symm, tends.tended ⟨⟨_, _, folded.houses⟩, folded.tends⟩⟩
        · obtain ⟨pins_last, _, _, _, _, halted, shrinks, least, folded⟩ := reclaimed
          have unites := folded.rounds.unites ends.shelves.formed (state.slot_lt _) halted
          exact ⟨iff_of_true rfl something, nofun, pins_last.trans pinned.symm,
            ⟨_, _, folded.houses, .emptied near unites shrinks least⟩, tends.trans folded.tends⟩
      | false =>
        have some_left : 0 < crowd table.hash (state.reach (table.hash key)) (table.hash key)
            (struck table.hash state.home table.compare key entries) := by
          rw [crowd_reach ends.shelves.formed]
          exact List.length_pos_of_ne_nil (left rfl)
        exact Runs.step (Runs.unpin pins) (Runs.pure ⟨iff_of_true rfl something, nofun, rfl,
          ⟨_, _, ends, .thinned near some_left⟩, tends⟩)
  · have nowhere : (state.home (table.hash key)).isValid = false := by simpa using valid
    obtain ⟨_, _, _, nothing⟩ := houses.vacant nowhere
    rw [nowhere]
    subst nothing
    exact Runs.pure ⟨by simp [under, routed], fun _ => rfl, rfl, ⟨_, _, houses, .kept rfl⟩, .refl _ memory.toAnnals⟩

end PagedIndex.Table
