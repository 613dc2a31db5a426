import PagedIndex.Failure

/-!
# LRU-K replacement

The replacer remembers the last `k` accesses of each frame. Its victim is the evictable frame whose `k`-th
most recent access lies furthest back; a frame with fewer than `k` accesses goes before all that have `k`,
and among such frames the one accessed first goes first.
-/

namespace PagedIndex

/-- What the replacer knows of a frame: its last accesses, the oldest first. -/
structure AccessHistory where
  accesses : List Nat
  evictable : Bool
  deriving DecidableEq

namespace AccessHistory

/-- One more access; of more than `k` the oldest is forgotten. -/
def record (k time : Nat) (history : AccessHistory) : AccessHistory :=
  let kept := if history.accesses.length = k then history.accesses.tail else history.accesses
  { history with accesses := kept ++ [time] }

/-- Whether all of the last `k` accesses are known. -/
def isWarm (k : Nat) (history : AccessHistory) : Bool := k ≤ history.accesses.length

/-- The oldest access remembered: the first one of a cold frame, the `k`-th most recent of a warm one. -/
def oldest (history : AccessHistory) : Nat := history.accesses.headD 0

end AccessHistory

structure LruK where
  frameCount : Nat
  k : Nat
  histories : Std.TreeMap FrameId AccessHistory
  clock : Nat
  candidates : Nat

namespace LruK

def create (frameCount k : Nat) : Outcome LruK :=
  if k = 0 then throw (.violation .historyDepthZero)
  else return ⟨frameCount, k, ∅, 0, 0⟩

def requireFrame (replacer : LruK) (frame : FrameId) : Outcome Unit :=
  if frame.index < replacer.frameCount then pure () else throw (.error (.invalidFrameId frame))

/-- Notes an access. A frame that was not known is known from now on, and not evictable. -/
def access (replacer : LruK) (frame : FrameId) : Outcome LruK := do
  replacer.requireFrame frame
  let history := (replacer.histories[frame]?).getD ⟨[], false⟩
  return { replacer with
    clock := replacer.clock + 1
    histories := replacer.histories.insert frame (history.record replacer.k replacer.clock) }

def dropEvictable (replacer : LruK) : Outcome LruK :=
  if replacer.candidates = 0 then throw (.violation .overflow)
  else return { replacer with candidates := replacer.candidates - 1 }

/-- Says whether a known frame may be evicted, which has to be news. -/
def permit (replacer : LruK) (frame : FrameId) (evictable : Bool) : Outcome LruK := do
  replacer.requireFrame frame
  match replacer.histories[frame]? with
  | none => throw (.error (.unknownFrame frame))
  | some history =>
    if history.evictable = evictable then throw (.error (.evictableUnchanged frame evictable))
    let histories := replacer.histories.insert frame { history with evictable }
    if evictable then
      return { replacer with histories, candidates := replacer.candidates + 1 }
    else return { ← replacer.dropEvictable with histories }

/-! ### Choosing a victim -/

/-- Whether the first of two frames is to be evicted before the second. -/
def goesBefore (k : Nat) (a b : FrameId × AccessHistory) : Bool :=
  if a.2.isWarm k != b.2.isWarm k then !a.2.isWarm k
  else if a.2.oldest ≠ b.2.oldest then a.2.oldest < b.2.oldest
  else a.1.index < b.1.index

/-- The frame of a list that is to be evicted before all others. -/
def foremost (k : Nat) : List (FrameId × AccessHistory) → Option (FrameId × AccessHistory)
  | [] => none
  | first :: rest =>
    match foremost k rest with
    | none => some first
    | some best => some (if goesBefore k best first then best else first)

def victim (replacer : LruK) : Option FrameId :=
  if replacer.candidates = 0 then none
  else (foremost replacer.k (replacer.histories.toList.filter (·.2.evictable))).map (·.1)

/-- Takes the victim: its accesses are forgotten, and it is not evictable any more. -/
def evict (replacer : LruK) : Option FrameId × LruK :=
  match replacer.victim with
  | none => (none, replacer)
  | some frame =>
    (some frame, { replacer with
      histories := replacer.histories.insert frame ⟨[], false⟩
      candidates := replacer.candidates - 1 })

/-- Forgets a frame, which has to be evictable if it is known at all. -/
def remove (replacer : LruK) (frame : FrameId) : Outcome LruK := do
  replacer.requireFrame frame
  match replacer.histories[frame]? with
  | none => return replacer
  | some history =>
    if !history.evictable then throw (.error (.frameNotEvictable frame))
    return { ← replacer.dropEvictable with histories := replacer.histories.erase frame }

end LruK

end PagedIndex
