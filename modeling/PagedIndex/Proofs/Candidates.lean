import Mathlib
import PagedIndex.LruK

/-!
# Eviction candidates

What each operation of the replacer does to the frames it tracks. The number of candidates is at all times
the number of tracked frames that may be evicted, so it never runs below zero. The victim is the one of them
that goes before all others. Of a frame the last `k` accesses are remembered.
-/

namespace PagedIndex.LruK

variable {replacer : LruK} {frame other : FrameId} {history : AccessHistory}

/-- Whether a frame is tracked and may be evicted. -/
def allows (replacer : LruK) (frame : FrameId) : Bool :=
  (replacer.histories[frame]?).any (·.evictable)

/-- The candidates are counted rightly, and only frames of the pool are tracked. -/
structure Counted (replacer : LruK) : Prop where
  tracked_lt : ∀ {frame : FrameId} {history : AccessHistory}, replacer.histories[frame]? = some history →
    frame.index < replacer.frameCount
  candidates_eq : replacer.candidates =
    (List.range replacer.frameCount).countP fun i => replacer.allows ⟨i⟩

theorem allows_of_tracked (tracked : replacer.histories[frame]? = some history) :
    replacer.allows frame = history.evictable := by
  simp [allows, tracked]

theorem exists_of_allows (allowed : replacer.allows frame = true) :
    ∃ history, replacer.histories[frame]? = some history ∧ history.evictable = true := by
  simpa [allows, Option.any_eq_true] using allowed

/-! ### Counting over an interval -/

theorem countP_range_congr {p q : Nat → Bool} {n : Nat} (same : ∀ i < n, p i = q i) :
    (List.range n).countP p = (List.range n).countP q :=
  List.countP_congr fun i member => by rw [same i (List.mem_range.mp member)]

theorem countP_range_succ (p q : Nat → Bool) {n j : Nat} (small : j < n) (out : p j = false)
    (into : q j = true) (same : ∀ i < n, i ≠ j → p i = q i) :
    (List.range n).countP q = (List.range n).countP p + 1 := by
  induction n with
  | zero => omega
  | succ n ih =>
    rw [List.range_succ, List.countP_append, List.countP_append, List.countP_singleton,
      List.countP_singleton]
    by_cases last : j = n
    · subst last
      have before := countP_range_congr (p := p) (q := q) (n := j) fun i less =>
        same i (by omega) (by omega)
      simp [before, out, into]
    · rw [ih (by omega) fun i less differ => same i (by omega) differ,
        same n (by omega) (Ne.symm last)]
      omega

/-! ### Operations on frames of the pool -/

def accessed (replacer : LruK) (frame : FrameId) : LruK := { replacer with
  clock := replacer.clock + 1
  histories := replacer.histories.insert frame
    (((replacer.histories[frame]?).getD ⟨[], false⟩).record replacer.k replacer.clock) }

def permitted (replacer : LruK) (frame : FrameId) (history : AccessHistory) (evictable : Bool) : LruK :=
  { replacer with
    histories := replacer.histories.insert frame { history with evictable }
    candidates := if evictable then replacer.candidates + 1 else replacer.candidates - 1 }

def forgotten (replacer : LruK) (frame : FrameId) : LruK := { replacer with
  histories := replacer.histories.erase frame
  candidates := replacer.candidates - 1 }

theorem access_eq (small : frame.index < replacer.frameCount) :
    replacer.access frame = .ok (replacer.accessed frame) := by
  simp [access, requireFrame, small, accessed, bind, Except.bind, pure, Except.pure]

theorem candidates_pos (counted : replacer.Counted) (allowed : replacer.allows frame = true) :
    0 < replacer.candidates := by
  obtain ⟨history, tracked, _⟩ := exists_of_allows allowed
  rw [counted.candidates_eq, List.countP_pos_iff]
  exact ⟨frame.index, List.mem_range.mpr (counted.tracked_lt tracked), allowed⟩

theorem dropEvictable_eq (counted : replacer.Counted) (allowed : replacer.allows frame = true) :
    replacer.dropEvictable = .ok { replacer with candidates := replacer.candidates - 1 } := by
  have some_left := candidates_pos counted allowed
  simp [dropEvictable, Nat.ne_of_gt some_left, pure, Except.pure]

theorem permit_eq (counted : replacer.Counted) (tracked : replacer.histories[frame]? = some history)
    {evictable : Bool} (news : history.evictable ≠ evictable) :
    replacer.permit frame evictable = .ok (replacer.permitted frame history evictable) := by
  have small := counted.tracked_lt tracked
  cases evictable with
  | true =>
    simp at news
    simp [permit, requireFrame, small, tracked, news, permitted, bind, Except.bind, pure, Except.pure]
  | false =>
    simp at news
    have allowed : replacer.allows frame = true := by rw [allows_of_tracked tracked, news]
    simp [permit, requireFrame, small, tracked, news, permitted, dropEvictable_eq counted allowed, bind,
      Except.bind, pure, Except.pure]

theorem remove_eq (counted : replacer.Counted) (allowed : replacer.allows frame = true) :
    replacer.remove frame = .ok (replacer.forgotten frame) := by
  obtain ⟨history, tracked, evictable⟩ := exists_of_allows allowed
  have small := counted.tracked_lt tracked
  simp [remove, requireFrame, small, tracked, evictable, dropEvictable_eq counted allowed, forgotten, bind,
    Except.bind, pure, Except.pure]

/-! ### Frames tracked afterwards -/

theorem histories_accessed (replacer : LruK) (frame other : FrameId) :
    (replacer.accessed frame).histories[other]? =
      if frame = other then
        some (((replacer.histories[frame]?).getD ⟨[], false⟩).record replacer.k replacer.clock)
      else replacer.histories[other]? := by
  simp [accessed, Std.TreeMap.getElem?_insert]

theorem histories_permitted (replacer : LruK) (frame other : FrameId) (history : AccessHistory)
    (evictable : Bool) :
    (replacer.permitted frame history evictable).histories[other]? =
      if frame = other then some { history with evictable } else replacer.histories[other]? := by
  simp [permitted, Std.TreeMap.getElem?_insert]

theorem histories_forgotten (replacer : LruK) (frame other : FrameId) :
    (replacer.forgotten frame).histories[other]? =
      if frame = other then none else replacer.histories[other]? := by
  simp [forgotten, Std.TreeMap.getElem?_erase]

theorem allows_accessed (replacer : LruK) (frame other : FrameId) :
    (replacer.accessed frame).allows other = replacer.allows other := by
  rw [allows, histories_accessed, allows]
  by_cases same : frame = other
  · subst same
    cases replacer.histories[frame]? <;> simp [AccessHistory.record]
  · simp [same]

theorem allows_permitted (replacer : LruK) (frame other : FrameId) (history : AccessHistory)
    (evictable : Bool) :
    (replacer.permitted frame history evictable).allows other =
      if frame = other then evictable else replacer.allows other := by
  rw [allows, histories_permitted]
  split <;> simp [allows]

theorem allows_forgotten (replacer : LruK) (frame other : FrameId) :
    (replacer.forgotten frame).allows other = if frame = other then false else replacer.allows other := by
  rw [allows, histories_forgotten]
  split <;> simp [allows]

/-! ### The count is kept -/

theorem Counted.accessed (counted : replacer.Counted) (small : frame.index < replacer.frameCount) :
    (replacer.accessed frame).Counted where
  tracked_lt {other history} tracked := by
    rw [histories_accessed] at tracked
    split at tracked
    · rename_i same
      exact same ▸ small
    · exact counted.tracked_lt tracked
  candidates_eq := by
    simp only [allows_accessed]
    exact counted.candidates_eq

theorem Counted.permitted (counted : replacer.Counted)
    (tracked : replacer.histories[frame]? = some history) {evictable : Bool}
    (news : history.evictable ≠ evictable) : (replacer.permitted frame history evictable).Counted where
  tracked_lt {other later} found := by
    rw [histories_permitted] at found
    split at found
    · rename_i same
      exact same ▸ counted.tracked_lt tracked
    · exact counted.tracked_lt found
  candidates_eq := by
    have small := counted.tracked_lt tracked
    have before := allows_of_tracked tracked
    have others : ∀ i < replacer.frameCount, i ≠ frame.index →
        replacer.allows ⟨i⟩ = (replacer.permitted frame history evictable).allows ⟨i⟩ := by
      intro i _ differ
      rw [allows_permitted, if_neg fun same => differ (by rw [same])]
    have after : (replacer.permitted frame history evictable).allows ⟨frame.index⟩ = evictable := by
      rw [allows_permitted, if_pos rfl]
    cases evictable with
    | true =>
      have out : replacer.allows ⟨frame.index⟩ = false := by simpa [before] using news
      have count := countP_range_succ (fun i => replacer.allows ⟨i⟩)
        (fun i => (replacer.permitted frame history true).allows ⟨i⟩) small out after others
      exact (congrArg (· + 1) counted.candidates_eq).trans count.symm
    | false =>
      have into : replacer.allows ⟨frame.index⟩ = true := by simpa [before] using news
      have count := countP_range_succ (fun i => (replacer.permitted frame history false).allows ⟨i⟩)
        (fun i => replacer.allows ⟨i⟩) small after into fun i less differ => (others i less differ).symm
      exact (congrArg (· - 1) (counted.candidates_eq.trans count)).trans (Nat.add_sub_cancel _ 1)

theorem Counted.withdrawn {later : LruK} (counted : replacer.Counted) (allowed : replacer.allows frame = true)
    (frames : later.frameCount = replacer.frameCount) (fewer : later.candidates = replacer.candidates - 1)
    (allows : ∀ other, later.allows other = if frame = other then false else replacer.allows other)
    (tracked : ∀ {other : FrameId} {history : AccessHistory}, later.histories[other]? = some history →
      replacer.histories[other]?.isSome) : later.Counted where
  tracked_lt {other history} found := by
    obtain ⟨before, there⟩ := Option.isSome_iff_exists.mp (tracked found)
    rw [frames]
    exact counted.tracked_lt there
  candidates_eq := by
    obtain ⟨history, there, _⟩ := exists_of_allows allowed
    have count := countP_range_succ (fun i => later.allows ⟨i⟩) (fun i => replacer.allows ⟨i⟩)
      (counted.tracked_lt there) ((allows frame).trans (if_pos rfl)) allowed fun i _ differ => by
        rw [allows, if_neg fun same => differ (by rw [same])]
    rw [fewer, frames]
    exact (congrArg (· - 1) (counted.candidates_eq.trans count)).trans (Nat.add_sub_cancel _ 1)

theorem Counted.forgotten (counted : replacer.Counted) (allowed : replacer.allows frame = true) :
    (replacer.forgotten frame).Counted := by
  have frames : (replacer.forgotten frame).frameCount = replacer.frameCount := rfl
  have fewer : (replacer.forgotten frame).candidates = replacer.candidates - 1 := rfl
  apply counted.withdrawn allowed frames fewer (allows_forgotten replacer frame)
  intro other history found
  rw [histories_forgotten] at found
  split at found
  · cases found
  · rw [found]
    rfl

theorem create_counted {frameCount k : Nat} (made : create frameCount k = .ok replacer) :
    replacer.Counted ∧ replacer.frameCount = frameCount ∧
      ∀ frame : FrameId, replacer.histories[frame]? = none := by
  unfold create at made
  split at made
  · cases made
  · cases made
    refine ⟨⟨fun tracked => by simp at tracked, ?_⟩, rfl, fun _ => by simp⟩
    simp [allows]

/-! ### The victim -/

theorem mem_of_foremost {k : Nat} {best : FrameId × AccessHistory}
    {entries : List (FrameId × AccessHistory)} (chosen : foremost k entries = some best) :
    best ∈ entries := by
  induction entries generalizing best with
  | nil => cases chosen
  | cons first rest ih =>
    unfold foremost at chosen
    cases found : foremost k rest with
    | none =>
      rw [found] at chosen
      simp only [Option.some.injEq] at chosen
      exact chosen ▸ List.mem_cons_self
    | some other =>
      rw [found] at chosen
      simp only [Option.some.injEq] at chosen
      split at chosen
      · exact chosen ▸ List.mem_cons_of_mem _ (ih found)
      · exact chosen ▸ List.mem_cons_self

theorem victim_allowed (chosen : replacer.victim = some frame) : replacer.allows frame = true := by
  unfold victim at chosen
  split at chosen
  · cases chosen
  · obtain ⟨⟨found, history⟩, best, same⟩ := Option.map_eq_some_iff.mp chosen
    obtain ⟨member, evictable⟩ := List.mem_filter.mp (mem_of_foremost best)
    have tracked := Std.TreeMap.mem_toList_iff_getElem?_eq_some.mp member
    simp only at same
    rw [← same, allows_of_tracked tracked]
    exact evictable

theorem foremost_none {k : Nat} {entries : List (FrameId × AccessHistory)} (none : foremost k entries = none) :
    entries = [] := by
  cases entries with
  | nil => rfl
  | cons first rest =>
    unfold foremost at none
    cases found : foremost k rest <;> simp [found] at none

theorem candidates_of_victim_none (counted : replacer.Counted) (fixed : replacer.victim = none) :
    replacer.candidates = 0 := by
  unfold victim at fixed
  split at fixed
  · assumption
  · have nobody := foremost_none (Option.map_eq_none_iff.mp fixed)
    rw [counted.candidates_eq, List.countP_eq_zero]
    intro i _ allowed
    obtain ⟨history, tracked, evictable⟩ := exists_of_allows allowed
    have member := Std.TreeMap.mem_toList_iff_getElem?_eq_some.mpr tracked
    exact absurd evictable (List.filter_eq_nil_iff.mp nobody _ member)

/-- Frames in the order in which they go: those with few accesses first, then by the access that counts. -/
def rank (k : Nat) (entry : FrameId × AccessHistory) : ℕ ×ₗ ℕ ×ₗ ℕ :=
  toLex (if entry.2.isWarm k then 1 else 0, toLex (entry.2.oldest, entry.1.index))

theorem goesBefore_iff (k : Nat) (a b : FrameId × AccessHistory) :
    goesBefore k a b = true ↔ rank k a < rank k b := by
  simp only [goesBefore, rank, Prod.Lex.toLex_lt_toLex]
  cases warm_a : a.2.isWarm k <;> cases warm_b : b.2.isWarm k
  all_goals
    by_cases same : a.2.oldest = b.2.oldest <;> simp [same]

theorem rank_le {k : Nat} {a b : FrameId × AccessHistory} (le : rank k a ≤ rank k b) :
    (a.2.isWarm k = true → b.2.isWarm k = true) ∧ (a.2.isWarm k = b.2.isWarm k → a.2.oldest ≤ b.2.oldest) := by
  simp only [rank, Prod.Lex.toLex_le_toLex] at le
  cases warm_a : a.2.isWarm k <;> cases warm_b : b.2.isWarm k
  all_goals
    simp [warm_a, warm_b] at le ⊢
  all_goals omega

theorem foremost_le {k : Nat} {best : FrameId × AccessHistory} {entries : List (FrameId × AccessHistory)}
    (chosen : foremost k entries = some best) : ∀ entry ∈ entries, rank k best ≤ rank k entry := by
  induction entries generalizing best with
  | nil => cases chosen
  | cons first rest ih =>
    unfold foremost at chosen
    cases found : foremost k rest with
    | none =>
      rw [found] at chosen
      cases chosen
      simp [foremost_none found]
    | some good =>
      rw [found] at chosen
      simp only [goesBefore_iff, Option.some.injEq] at chosen
      intro entry member
      rcases List.mem_cons.mp member with rfl | member
      · split at chosen
        · rename_i less
          exact chosen ▸ less.le
        · exact chosen ▸ le_rfl
      · have least := ih found entry member
        split at chosen
        · exact chosen ▸ least
        · rename_i above
          exact chosen ▸ (not_lt.mp above).trans least

/-- No frame that may be evicted goes before the victim. -/
theorem victim_le {history known : AccessHistory} (chosen : replacer.victim = some frame)
    (tracked : replacer.histories[frame]? = some history) (there : replacer.histories[other]? = some known)
    (evictable : known.evictable = true) : rank replacer.k (frame, history) ≤ rank replacer.k (other, known) := by
  unfold victim at chosen
  split at chosen
  · cases chosen
  · obtain ⟨⟨found, remembered⟩, best, same⟩ := Option.map_eq_some_iff.mp chosen
    dsimp only at same
    subst same
    have listed := Std.TreeMap.mem_toList_iff_getElem?_eq_some.mp (List.mem_filter.mp (mem_of_foremost best)).1
    obtain rfl : remembered = history := Option.some.inj (listed.symm.trans tracked)
    exact foremost_le best _
      (List.mem_filter.mpr ⟨Std.TreeMap.mem_toList_iff_getElem?_eq_some.mpr there, evictable⟩)

end PagedIndex.LruK

namespace PagedIndex

/-! ### Remembered accesses -/

/-- The accesses remembered of a frame after one more; of more than `k` the oldest is forgotten. -/
def recorded (k time : Nat) (times : List Nat) : List Nat :=
  (if times.length = k then times.tail else times) ++ [time]

/-- To remember the last `k` accesses is to remember those of one fewer and the new one. -/
theorem recorded_take {k : Nat} (positive : 0 < k) (time : Nat) (times : List Nat) :
    recorded k time (times.take k).reverse = ((time :: times).take k).reverse := by
  obtain ⟨k, rfl⟩ := Nat.exists_eq_succ_of_ne_zero (Nat.ne_of_gt positive)
  rw [recorded, List.take_succ_cons, List.reverse_cons, List.length_reverse, List.length_take]
  congr 1
  split
  · rename_i full
    have last : min ((times.take k.succ).length - 1) k.succ = k := by
      rw [List.length_take]
      omega
    rw [List.tail_reverse, List.dropLast_eq_take, List.take_take, last]
  · rename_i room
    have short : times.length ≤ k := by omega
    rw [List.take_of_length_le (Nat.le_succ_of_le short), List.take_of_length_le short]

namespace AccessHistory

variable {k : Nat} {times : List Nat} {evictable : Bool}

theorem isWarm_remembered : isWarm k ⟨(times.take k).reverse, evictable⟩ = true ↔ k ≤ times.length := by
  rw [isWarm, decide_eq_true_eq, List.length_reverse, List.length_take]
  omega

/-- Of few accesses the oldest one remembered is the first. -/
theorem oldest_few (few : times.length < k) :
    oldest ⟨(times.take k).reverse, evictable⟩ = times.getLastD 0 := by
  rw [oldest, List.headD_eq_head?_getD, List.head?_reverse, List.take_of_length_le few.le,
    List.getLastD_eq_getLast?]

/-- Of many it is the `k`-th from the end. -/
theorem oldest_many (positive : 0 < k) (many : k ≤ times.length) :
    oldest ⟨(times.take k).reverse, evictable⟩ = times.getD (k - 1) 0 := by
  rw [oldest, List.headD_eq_head?_getD, List.head?_reverse, List.getLast?_eq_getElem?, List.length_take,
    List.getElem?_take, List.getD_eq_getElem?_getD, Nat.min_eq_left many, if_pos (by omega)]

end AccessHistory

end PagedIndex
