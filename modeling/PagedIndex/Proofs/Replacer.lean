import Mathlib
import PagedIndex.Proofs.Candidates

/-!
# The replacer and its log

The replacer keeps a few accesses of each frame and a running count of its candidates. The log of its calls keeps
everything, and the policy is defined by the log alone. Whatever a replacer is asked, and also when it refuses, it
answers as its log demands.
-/

namespace PagedIndex.LruK

variable {frameCount k : Nat} {replacer : LruK} {frame other : FrameId}

inductive Call where
  | access (frame : FrameId)
  | permit (frame : FrameId) (evictable : Bool)
  | evict
  | victim
  | remove (frame : FrameId)
  deriving DecidableEq

inductive Answer where
  | done
  | chose (frame : Option FrameId)
  | refused (failure : Failure)
  deriving DecidableEq

def settle (replacer : LruK) : Outcome LruK → Answer × LruK
  | .ok later => (.done, later)
  | .error failure => (.refused failure, replacer)

def Call.run : Call → LruK → Answer × LruK
  | .access frame, replacer => replacer.settle (replacer.access frame)
  | .permit frame evictable, replacer => replacer.settle (replacer.permit frame evictable)
  | .evict, replacer => (.chose replacer.evict.1, replacer.evict.2)
  | .victim, replacer => (.chose replacer.victim, replacer)
  | .remove frame, replacer => replacer.settle (replacer.remove frame)

/-! ### The log -/

/-- What an accepted call did to a frame. -/
inductive Deed where
  | accessed (frame : FrameId)
  | permitted (frame : FrameId) (evictable : Bool)
  | evicted (frame : FrameId)
  | removed (frame : FrameId)
  deriving DecidableEq

def Deed.target : Deed → FrameId
  | accessed frame | permitted frame _ | evicted frame | removed frame => frame

/-- All deeds, the latest first. -/
abbrev Log := List Deed

def Call.noted : Call → Answer → Log → Log
  | .access frame, .done, log => .accessed frame :: log
  | .permit frame evictable, .done, log => .permitted frame evictable :: log
  | .evict, .chose (some frame), log => .evicted frame :: log
  | .remove frame, .done, log => .removed frame :: log
  | _, _, log => log

namespace Log

variable {log : Log}

def total : Log → Nat
  | [] => 0
  | .accessed _ :: before => total before + 1
  | _ :: before => total before

/-- The accesses to a frame since it was last evicted or removed, the latest first. Each of them is named by the
number of accesses, to whatever frames, that came before it. -/
def accesses (frame : FrameId) : Log → List Nat
  | [] => []
  | .accessed other :: before => if other = frame then total before :: accesses frame before else accesses frame before
  | .evicted other :: before | .removed other :: before => if other = frame then [] else accesses frame before
  | .permitted _ _ :: before => accesses frame before

/-- Whether a frame was last said to be evictable, and neither evicted nor removed since. -/
def allowed (frame : FrameId) : Log → Bool
  | [] => false
  | .permitted other evictable :: before => if other = frame then evictable else allowed frame before
  | .evicted other :: before | .removed other :: before => if other = frame then false else allowed frame before
  | .accessed _ :: before => allowed frame before

/-- Whether a frame was accessed at all, and not removed since. -/
def known (frame : FrameId) : Log → Bool
  | [] => false
  | .accessed other :: before => if other = frame then true else known frame before
  | .removed other :: before => if other = frame then false else known frame before
  | .permitted _ _ :: before | .evicted _ :: before => known frame before

/-- The access that counts: the first one of a frame with fewer than `k`, and else the `k`-th from the end. -/
def time (k : Nat) (frame : FrameId) (log : Log) : Nat :=
  if (accesses frame log).length < k then (accesses frame log).getLastD 0 else (accesses frame log).getD (k - 1) 0

/-- Whether a frame has at least `k` accesses, the time that counts, and the frame. -/
def key (k : Nat) (frame : FrameId) (log : Log) : ℕ ×ₗ ℕ ×ₗ ℕ :=
  toLex (if (accesses frame log).length < k then 0 else 1, toLex (time k frame log, frame.index))

structure IsNext (k : Nat) (log : Log) (frame : FrameId) : Prop where
  allowed : allowed frame log = true
  least : ∀ other, Log.allowed other log = true → key k frame log ≤ key k other log

theorem IsNext.unique (one : IsNext k log frame) (two : IsNext k log other) : frame = other := by
  have same := le_antisymm (one.least other two.allowed) (two.least frame one.allowed)
  unfold key at same
  have index : frame.index = other.index := congrArg (fun key => (ofLex (ofLex key).2).2) same
  exact congrArg FrameId.mk index

/-- What is to be remembered of a frame. -/
def history (k : Nat) (frame : FrameId) (log : Log) : AccessHistory :=
  ⟨((accesses frame log).take k).reverse, allowed frame log⟩

theorem history_apart {deed : Deed} (apart : deed.target ≠ other) :
    history k other (deed :: log) = history k other log := by
  have same : accesses other (deed :: log) = accesses other log ∧ allowed other (deed :: log) = allowed other log := by
    cases deed with
    | accessed frame => exact ⟨if_neg apart, rfl⟩
    | permitted frame evictable => exact ⟨rfl, if_neg apart⟩
    | evicted frame => exact ⟨if_neg apart, if_neg apart⟩
    | removed frame => exact ⟨if_neg apart, if_neg apart⟩
  unfold history
  rw [same.1, same.2]

theorem known_apart {deed : Deed} (apart : deed.target ≠ other) : known other (deed :: log) = known other log := by
  cases deed with
  | accessed frame => exact if_neg apart
  | removed frame => exact if_neg apart
  | permitted => rfl
  | evicted => rfl

theorem rank_history (positive : 0 < k) (frame : FrameId) (log : Log) :
    rank k (frame, history k frame log) = key k frame log := by
  unfold rank key time history
  by_cases few : (accesses frame log).length < k
  · have cold : ¬ (AccessHistory.mk ((accesses frame log).take k).reverse (allowed frame log)).isWarm k = true := by
      rw [AccessHistory.isWarm_remembered]
      omega
    rw [if_neg cold, if_pos few, if_pos few, AccessHistory.oldest_few few]
  · have many := not_lt.mp few
    rw [if_pos (AccessHistory.isWarm_remembered.mpr many), if_neg few, if_neg few,
      AccessHistory.oldest_many positive many]

end Log

open Log (total accesses allowed known IsNext)

/-- The one answer that each call is owed after all that the log tells. -/
inductive Deserves (frameCount k : Nat) (log : Log) : Call → Answer → Prop where
  | accessed {frame : FrameId} (inside : frame.index < frameCount) : Deserves frameCount k log (.access frame) .done
  | permitted {frame : FrameId} {evictable : Bool} (inside : frame.index < frameCount)
      (seen : known frame log = true) (news : allowed frame log ≠ evictable) :
      Deserves frameCount k log (.permit frame evictable) .done
  | removed {frame : FrameId} (inside : frame.index < frameCount)
      (idle : known frame log = true → allowed frame log = true) : Deserves frameCount k log (.remove frame) .done
  | chosen {call : Call} {frame : FrameId} (choosing : call = .evict ∨ call = .victim) (next : IsNext k log frame) :
      Deserves frameCount k log call (.chose (some frame))
  | nobody {call : Call} (choosing : call = .evict ∨ call = .victim) (fixed : ∀ frame, allowed frame log = false) :
      Deserves frameCount k log call (.chose none)
  | outside {call : Call} {frame : FrameId}
      (names : call = .access frame ∨ (∃ evictable, call = .permit frame evictable) ∨ call = .remove frame)
      (outside : frameCount ≤ frame.index) :
      Deserves frameCount k log call (.refused (.error (.invalidFrameId frame)))
  | unknown {frame : FrameId} {evictable : Bool} (inside : frame.index < frameCount)
      (unseen : known frame log = false) :
      Deserves frameCount k log (.permit frame evictable) (.refused (.error (.unknownFrame frame)))
  | unchanged {frame : FrameId} {evictable : Bool} (inside : frame.index < frameCount)
      (seen : known frame log = true) (same : allowed frame log = evictable) :
      Deserves frameCount k log (.permit frame evictable) (.refused (.error (.evictableUnchanged frame evictable)))
  | pinned {frame : FrameId} (inside : frame.index < frameCount) (seen : known frame log = true)
      (pinned : allowed frame log = false) :
      Deserves frameCount k log (.remove frame) (.refused (.error (.frameNotEvictable frame)))

/-! ### A replacer that goes by its log -/

variable {log : Log}

structure Mirrors (frameCount k : Nat) (log : Log) (replacer : LruK) : Prop where
  positive : 0 < k
  depth : replacer.k = k
  frames : replacer.frameCount = frameCount
  counted : replacer.Counted
  clock : replacer.clock = total log
  tracked : ∀ frame, replacer.histories[frame]? = if known frame log then some (Log.history k frame log) else none
  unseen : ∀ frame, known frame log = false → Log.history k frame log = ⟨[], false⟩

namespace Mirrors

theorem created (made : create frameCount k = .ok replacer) : Mirrors frameCount k [] replacer := by
  obtain ⟨counted, frames, untracked⟩ := create_counted made
  unfold create at made
  split at made
  · cases made
  · rename_i positive
    cases made
    apply Mirrors.mk (Nat.pos_of_ne_zero positive) rfl rfl counted rfl
    · intro frame
      exact untracked frame
    · intro frame _
      simp [Log.history, accesses, allowed]

theorem history_eq (mirrors : Mirrors frameCount k log replacer) (frame : FrameId) :
    (replacer.histories[frame]?).getD ⟨[], false⟩ = Log.history k frame log := by
  rw [mirrors.tracked]
  split
  · rfl
  · rename_i unseen
    exact (mirrors.unseen frame (by simpa using unseen)).symm

theorem allows_eq (mirrors : Mirrors frameCount k log replacer) (frame : FrameId) :
    replacer.allows frame = allowed frame log := by
  unfold allows
  rw [mirrors.tracked]
  split
  · rfl
  · rename_i unseen
    exact (congrArg AccessHistory.evictable (mirrors.unseen frame (by simpa using unseen))).symm

theorem known_of_allowed (mirrors : Mirrors frameCount k log replacer) (evictable : allowed frame log = true) :
    known frame log = true := by
  by_contra unseen
  have blank := congrArg AccessHistory.evictable (mirrors.unseen frame (by simpa using unseen))
  simp [Log.history, evictable] at blank

theorem tracked_known (mirrors : Mirrors frameCount k log replacer) (seen : known frame log = true) :
    replacer.histories[frame]? = some (Log.history k frame log) := by
  rw [mirrors.tracked, if_pos seen]

theorem tracked_unknown (mirrors : Mirrors frameCount k log replacer) (unseen : known frame log = false) :
    replacer.histories[frame]? = none := by
  rw [mirrors.tracked, unseen]
  rfl

/-! ### Each deed goes into the log -/

/-- Only the frame of the deed has to be looked at. -/
theorem next {deed : Deed} {later : LruK} (mirrors : Mirrors frameCount k log replacer) (depth : later.k = replacer.k)
    (frames : later.frameCount = replacer.frameCount) (counted : later.Counted)
    (clock : later.clock = total (deed :: log))
    (apart : ∀ other, deed.target ≠ other → later.histories[other]? = replacer.histories[other]?)
    (tracked : later.histories[deed.target]? =
      if known deed.target (deed :: log) then some (Log.history k deed.target (deed :: log)) else none)
    (unseen : known deed.target (deed :: log) = false → Log.history k deed.target (deed :: log) = ⟨[], false⟩) :
    Mirrors frameCount k (deed :: log) later where
  positive := mirrors.positive
  depth := depth.trans mirrors.depth
  frames := frames.trans mirrors.frames
  counted := counted
  clock := clock
  tracked other := by
    by_cases differ : deed.target ≠ other
    · rw [apart other differ, mirrors.tracked, Log.known_apart differ, Log.history_apart differ]
    · rwa [← not_not.mp differ]
  unseen other absent := by
    by_cases differ : deed.target ≠ other
    · rw [Log.known_apart differ] at absent
      rw [Log.history_apart differ]
      exact mirrors.unseen other absent
    · rw [← not_not.mp differ] at absent ⊢
      exact unseen absent

theorem accessed (mirrors : Mirrors frameCount k log replacer) (inside : frame.index < replacer.frameCount) :
    Mirrors frameCount k (.accessed frame :: log) (replacer.accessed frame) := by
  have seen : known frame (.accessed frame :: log) = true := if_pos rfl
  have clock : replacer.clock + 1 = total log + 1 := by rw [mirrors.clock]
  refine mirrors.next rfl rfl (mirrors.counted.accessed inside) clock (fun other apart => ?_) ?_ fun absent => ?_
  · rw [histories_accessed]
    exact if_neg apart
  · show (replacer.accessed frame).histories[frame]? = if known frame _ then some (Log.history k frame _) else none
    rw [histories_accessed, if_pos rfl, if_pos seen, mirrors.history_eq, mirrors.depth, mirrors.clock]
    show some (AccessHistory.mk (recorded k (total log) _) _) = _
    simp [Log.history, accesses, allowed, recorded_take mirrors.positive]
  · cases seen.symm.trans absent

theorem permitted (mirrors : Mirrors frameCount k log replacer) (seen : known frame log = true) {evictable : Bool}
    (news : allowed frame log ≠ evictable) :
    Mirrors frameCount k (.permitted frame evictable :: log)
      (replacer.permitted frame (Log.history k frame log) evictable) := by
  have counted := mirrors.counted.permitted (mirrors.tracked_known seen) news
  refine mirrors.next rfl rfl counted mirrors.clock (fun other apart => ?_) ?_ fun absent => ?_
  · rw [histories_permitted]
    exact if_neg apart
  · show (replacer.permitted frame _ evictable).histories[frame]? =
      if known frame log then some (Log.history k frame _) else none
    rw [histories_permitted, if_pos rfl, if_pos seen]
    simp [Log.history, accesses, allowed]
  · cases seen.symm.trans absent

theorem history_removed : Log.history k frame (.removed frame :: log) = ⟨[], false⟩ := by
  simp [Log.history, accesses, allowed]

theorem known_removed : known frame (.removed frame :: log) = false :=
  if_pos rfl

theorem forgotten (mirrors : Mirrors frameCount k log replacer) (evictable : allowed frame log = true) :
    Mirrors frameCount k (.removed frame :: log) (replacer.forgotten frame) := by
  have counted := mirrors.counted.forgotten ((mirrors.allows_eq frame).trans evictable)
  refine mirrors.next rfl rfl counted mirrors.clock (fun other apart => ?_) ?_ fun _ => history_removed
  · rw [histories_forgotten]
    exact if_neg apart
  · show (replacer.forgotten frame).histories[frame]? = if known frame _ then some (Log.history k frame _) else none
    rw [histories_forgotten, known_removed, if_pos rfl]
    rfl

theorem ignored (mirrors : Mirrors frameCount k log replacer) (unseen : known frame log = false) :
    Mirrors frameCount k (.removed frame :: log) replacer := by
  refine mirrors.next rfl rfl mirrors.counted mirrors.clock (fun _ _ => rfl) ?_ fun _ => history_removed
  show replacer.histories[frame]? = if known frame _ then some (Log.history k frame _) else none
  rw [mirrors.tracked_unknown unseen, known_removed]
  rfl

end Mirrors

/-- The victim stays known, with nothing remembered of it. -/
def taken (replacer : LruK) (frame : FrameId) : LruK := { replacer with
  histories := replacer.histories.insert frame ⟨[], false⟩
  candidates := replacer.candidates - 1 }

theorem evict_some (chosen : replacer.victim = some frame) : replacer.evict = (some frame, replacer.taken frame) := by
  unfold evict
  rw [chosen]
  rfl

theorem evict_none (fixed : replacer.victim = none) : replacer.evict = (none, replacer) := by
  unfold evict
  rw [fixed]

theorem histories_taken (replacer : LruK) (frame other : FrameId) :
    (replacer.taken frame).histories[other]? =
      if frame = other then some ⟨[], false⟩ else replacer.histories[other]? := by
  simp [taken, Std.TreeMap.getElem?_insert]

theorem allows_taken (replacer : LruK) (frame other : FrameId) :
    (replacer.taken frame).allows other = if frame = other then false else replacer.allows other := by
  unfold allows
  rw [histories_taken]
  split <;> rfl

theorem Counted.taken (counted : replacer.Counted) (allowed : replacer.allows frame = true) :
    (replacer.taken frame).Counted := by
  have frames : (replacer.taken frame).frameCount = replacer.frameCount := rfl
  have fewer : (replacer.taken frame).candidates = replacer.candidates - 1 := rfl
  apply counted.withdrawn allowed frames fewer (allows_taken replacer frame)
  intro other history found
  rw [histories_taken] at found
  split at found
  · rename_i same
    obtain ⟨before, tracked, -⟩ := exists_of_allows allowed
    rw [← same, tracked]
    rfl
  · rw [found]
    rfl

theorem Mirrors.taken (mirrors : Mirrors frameCount k log replacer) (evictable : allowed frame log = true) :
    Mirrors frameCount k (.evicted frame :: log) (replacer.taken frame) := by
  have seen := mirrors.known_of_allowed evictable
  have counted := mirrors.counted.taken ((mirrors.allows_eq frame).trans evictable)
  refine mirrors.next rfl rfl counted mirrors.clock (fun other apart => ?_) ?_ fun absent => ?_
  · rw [histories_taken]
    exact if_neg apart
  · show (replacer.taken frame).histories[frame]? = if known frame log then some (Log.history k frame _) else none
    rw [histories_taken, if_pos rfl, if_pos seen]
    simp [Log.history, accesses, allowed]
  · cases seen.symm.trans absent

/-! ### The victim by the log -/

namespace Mirrors

theorem victim_isNext (mirrors : Mirrors frameCount k log replacer) (chosen : replacer.victim = some frame) :
    IsNext k log frame := by
  have evictable : allowed frame log = true := (mirrors.allows_eq frame).symm.trans (victim_allowed chosen)
  apply IsNext.mk evictable
  intro other candidate
  -- The replacer compares what it remembers of both, which is what counts in the log.
  have here := mirrors.tracked_known (mirrors.known_of_allowed evictable)
  have there := mirrors.tracked_known (mirrors.known_of_allowed candidate)
  have least := victim_le chosen here there candidate
  rw [mirrors.depth] at least
  rwa [Log.rank_history mirrors.positive, Log.rank_history mirrors.positive] at least

theorem nobody (mirrors : Mirrors frameCount k log replacer) (fixed : replacer.victim = none) (frame : FrameId) :
    allowed frame log = false := by
  by_contra candidate
  have some_left := candidates_pos mirrors.counted ((mirrors.allows_eq frame).trans (by simpa using candidate))
  have none_left := candidates_of_victim_none mirrors.counted fixed
  omega

theorem victim_some_iff (mirrors : Mirrors frameCount k log replacer) :
    replacer.victim = some frame ↔ IsNext k log frame := by
  constructor
  · exact mirrors.victim_isNext
  · intro next
    cases chosen : replacer.victim with
    | none =>
      have fixed := mirrors.nobody chosen frame
      rw [next.allowed] at fixed
      cases fixed
    | some other => rw [(mirrors.victim_isNext chosen).unique next]

theorem victim_none_iff (mirrors : Mirrors frameCount k log replacer) :
    replacer.victim = none ↔ replacer.candidates = 0 := by
  constructor
  · exact candidates_of_victim_none mirrors.counted
  · intro none_left
    unfold victim
    rw [if_pos none_left]

/-! ### Calls -/

/-- A call got the answer that it is owed, and the log goes on with it. -/
structure Follows (frameCount k : Nat) (log : Log) (call : Call) (result : Answer × LruK) : Prop where
  answer : Deserves frameCount k log call result.1
  mirrors : Mirrors frameCount k (call.noted result.1 log) result.2

variable (mirrors : Mirrors frameCount k log replacer)

include mirrors

theorem requireFrame_inside (inside : frame.index < frameCount) : replacer.requireFrame frame = .ok () := by
  unfold requireFrame
  rw [mirrors.frames, if_pos inside]
  rfl

theorem requireFrame_outside (outside : frameCount ≤ frame.index) :
    replacer.requireFrame frame = .error (.error (.invalidFrameId frame)) := by
  unfold requireFrame
  rw [mirrors.frames, if_neg (by omega)]
  rfl

theorem access_follows (frame : FrameId) :
    Follows frameCount k log (.access frame) ((Call.access frame).run replacer) := by
  show Follows frameCount k log _ (replacer.settle (replacer.access frame))
  by_cases inside : frame.index < frameCount
  · have within : frame.index < replacer.frameCount := by rwa [mirrors.frames]
    rw [access_eq within]
    exact ⟨.accessed inside, mirrors.accessed within⟩
  · have outside := not_lt.mp inside
    have refused : replacer.access frame = .error (.error (.invalidFrameId frame)) := by
      unfold access
      rw [mirrors.requireFrame_outside outside]
      rfl
    rw [refused]
    exact ⟨.outside (.inl rfl) outside, mirrors⟩

theorem permit_follows (frame : FrameId) (evictable : Bool) :
    Follows frameCount k log (.permit frame evictable) ((Call.permit frame evictable).run replacer) := by
  show Follows frameCount k log _ (replacer.settle (replacer.permit frame evictable))
  by_cases inside : frame.index < frameCount
  · cases seen : known frame log with
    | false =>
      have refused : replacer.permit frame evictable = .error (.error (.unknownFrame frame)) := by
        unfold permit
        rw [mirrors.requireFrame_inside inside, mirrors.tracked_unknown seen]
        rfl
      rw [refused]
      exact ⟨.unknown inside seen, mirrors⟩
    | true =>
      have tracked := mirrors.tracked_known seen
      by_cases news : allowed frame log = evictable
      · have refused : replacer.permit frame evictable = .error (.error (.evictableUnchanged frame evictable)) := by
          unfold permit
          rw [mirrors.requireFrame_inside inside, tracked]
          show (if allowed frame log = evictable then _ else _) = _
          rw [if_pos news]
          rfl
        rw [refused]
        exact ⟨.unchanged inside seen news, mirrors⟩
      · rw [permit_eq mirrors.counted tracked news]
        exact ⟨.permitted inside seen news, mirrors.permitted seen news⟩
  · have outside := not_lt.mp inside
    have refused : replacer.permit frame evictable = .error (.error (.invalidFrameId frame)) := by
      unfold permit
      rw [mirrors.requireFrame_outside outside]
      rfl
    rw [refused]
    exact ⟨.outside (.inr (.inl ⟨evictable, rfl⟩)) outside, mirrors⟩

theorem remove_follows (frame : FrameId) :
    Follows frameCount k log (.remove frame) ((Call.remove frame).run replacer) := by
  show Follows frameCount k log _ (replacer.settle (replacer.remove frame))
  by_cases inside : frame.index < frameCount
  · cases seen : known frame log with
    | false =>
      -- This is accepted, so it is noted, although nothing is done.
      have nothing : replacer.remove frame = .ok replacer := by
        unfold remove
        rw [mirrors.requireFrame_inside inside, mirrors.tracked_unknown seen]
        rfl
      rw [nothing]
      exact ⟨.removed inside (fun known => by rw [seen] at known; cases known), mirrors.ignored seen⟩
    | true =>
      cases evictable : allowed frame log with
      | false =>
        have refused : replacer.remove frame = .error (.error (.frameNotEvictable frame)) := by
          unfold remove
          rw [mirrors.requireFrame_inside inside, mirrors.tracked_known seen]
          show (if (!allowed frame log) = true then _ else _) = _
          rw [evictable]
          rfl
        rw [refused]
        exact ⟨.pinned inside seen evictable, mirrors⟩
      | true =>
        rw [remove_eq mirrors.counted ((mirrors.allows_eq frame).trans evictable)]
        exact ⟨.removed inside fun _ => evictable, mirrors.forgotten evictable⟩
  · have outside := not_lt.mp inside
    have refused : replacer.remove frame = .error (.error (.invalidFrameId frame)) := by
      unfold remove
      rw [mirrors.requireFrame_outside outside]
      rfl
    rw [refused]
    exact ⟨.outside (.inr (.inr rfl)) outside, mirrors⟩

theorem victim_deserves {call : Call} (choosing : call = .evict ∨ call = .victim) :
    Deserves frameCount k log call (.chose replacer.victim) := by
  cases chosen : replacer.victim with
  | none => exact .nobody choosing (mirrors.nobody chosen)
  | some frame => exact .chosen choosing (mirrors.victim_isNext chosen)

theorem evict_follows : Follows frameCount k log .evict (Call.evict.run replacer) := by
  have owed : Deserves frameCount k log .evict (.chose replacer.victim) := mirrors.victim_deserves (.inl rfl)
  show Follows frameCount k log .evict (.chose replacer.evict.1, replacer.evict.2)
  cases chosen : replacer.victim with
  | none =>
    rw [chosen] at owed
    rw [evict_none chosen]
    exact ⟨owed, mirrors⟩
  | some frame =>
    rw [chosen] at owed
    rw [evict_some chosen]
    exact ⟨owed, mirrors.taken (mirrors.victim_isNext chosen).allowed⟩

theorem call (call : Call) : Follows frameCount k log call (call.run replacer) := by
  cases call with
  | access frame => exact mirrors.access_follows frame
  | permit frame evictable => exact mirrors.permit_follows frame evictable
  | evict => exact mirrors.evict_follows
  | victim => exact ⟨mirrors.victim_deserves (.inr rfl), mirrors⟩
  | remove frame => exact mirrors.remove_follows frame

end Mirrors

/-! ### Runs -/

/-- Replacers that were asked whatever one likes, and their logs. -/
inductive Run (frameCount k : Nat) : Log → LruK → Prop where
  | created {replacer : LruK} (made : create frameCount k = .ok replacer) : Run frameCount k [] replacer
  | called {log : Log} {replacer : LruK} (before : Run frameCount k log replacer) (call : Call) :
      Run frameCount k (call.noted (call.run replacer).1 log) (call.run replacer).2

theorem Run.mirrors (run : Run frameCount k log replacer) : Mirrors frameCount k log replacer := by
  induction run with
  | created made => exact .created made
  | called before call ih => exact (ih.call call).mirrors

/-- A replacer does what its log demands. -/
structure Obeys (frameCount k : Nat) (log : Log) (replacer : LruK) : Prop where
  /-- It has as many candidates as there are frames that the log allows to go. -/
  size : replacer.candidates = (List.range frameCount).countP fun i => allowed ⟨i⟩ log
  confined : ∀ frame, allowed frame log = true → frame.index < frameCount
  answers : ∀ call : Call, Deserves frameCount k log call (call.run replacer).1
  victim_none : replacer.victim = none ↔ replacer.candidates = 0
  victim_some : ∀ frame, replacer.victim = some frame ↔ IsNext k log frame
  evict_victim : replacer.evict.1 = replacer.victim
  looking : (Call.victim.run replacer).2 = replacer
  refused : ∀ (call : Call) (failure : Failure),
    (call.run replacer).1 = .refused failure → (call.run replacer).2 = replacer
  /-- The count is not zero when it goes down. -/
  evicted : ∀ frame, replacer.victim = some frame → replacer.evict.2.candidates + 1 = replacer.candidates

theorem settle_refused {outcome : Outcome LruK} {failure : Failure}
    (refused : (replacer.settle outcome).1 = .refused failure) : (replacer.settle outcome).2 = replacer := by
  cases outcome with
  | ok later => cases refused
  | error failure => rfl

theorem Call.refused_same (call : Call) {failure : Failure} (refused : (call.run replacer).1 = .refused failure) :
    (call.run replacer).2 = replacer := by
  cases call with
  | access frame => exact settle_refused refused
  | permit frame evictable => exact settle_refused refused
  | evict => cases refused
  | victim => rfl
  | remove frame => exact settle_refused refused

theorem Mirrors.size (mirrors : Mirrors frameCount k log replacer) :
    replacer.candidates = (List.range frameCount).countP fun i => allowed ⟨i⟩ log := by
  rw [mirrors.counted.candidates_eq, mirrors.frames]
  exact countP_range_congr fun i _ => mirrors.allows_eq ⟨i⟩

theorem Mirrors.confined (mirrors : Mirrors frameCount k log replacer) (evictable : allowed frame log = true) :
    frame.index < frameCount := by
  have tracked := mirrors.tracked_known (mirrors.known_of_allowed evictable)
  exact mirrors.frames ▸ mirrors.counted.tracked_lt tracked

/-- Whatever a replacer was asked before, it goes by the policy that is defined on its whole log. -/
theorem Run.obeys_log (run : Run frameCount k log replacer) : Obeys frameCount k log replacer where
  size := run.mirrors.size
  confined _ := run.mirrors.confined
  answers call := (run.mirrors.call call).answer
  victim_none := run.mirrors.victim_none_iff
  victim_some _ := run.mirrors.victim_some_iff
  evict_victim := by
    cases chosen : replacer.victim with
    | none => rw [evict_none chosen]
    | some frame => rw [evict_some chosen]
  looking := rfl
  refused call _ := call.refused_same
  evicted frame chosen := by
    have some_left := candidates_pos run.mirrors.counted (victim_allowed chosen)
    rw [evict_some chosen]
    show replacer.candidates - 1 + 1 = replacer.candidates
    omega

/-- Of two frames the one with a single access goes, although its access is the later one. -/
theorem obeys_log_two_frames : ∃ replacer : LruK,
    Run 2 2 [.permitted ⟨1⟩ true, .accessed ⟨1⟩, .permitted ⟨0⟩ true, .accessed ⟨0⟩, .accessed ⟨0⟩] replacer ∧
      replacer.victim = some ⟨1⟩ ∧
      Obeys 2 2 [.permitted ⟨1⟩ true, .accessed ⟨1⟩, .permitted ⟨0⟩ true, .accessed ⟨0⟩, .accessed ⟨0⟩] replacer := by
  obtain ⟨empty, made⟩ : ∃ replacer, create 2 2 = .ok replacer := ⟨_, rfl⟩
  have twice := ((Run.created made).called (.access ⟨0⟩)).called (.access ⟨0⟩)
  have run := ((twice.called (.permit ⟨0⟩ true)).called (.access ⟨1⟩)).called (.permit ⟨1⟩ true)
  cases made
  exact ⟨_, run, rfl, Run.obeys_log run⟩

end PagedIndex.LruK
