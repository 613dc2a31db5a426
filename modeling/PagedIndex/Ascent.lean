import PagedIndex.Failure

/-!
# Ascents

Loops over consecutive numbers that stop at the first failure.
-/

namespace PagedIndex

variable {m : Type → Type} [Monad m] {α : Type}

/-- `step start`, `step (start + 1)`, … for `count` numbers, each on the result of the one before. -/
@[specialize]
def foldUp (step : Nat → α → m α) : (count start : Nat) → α → m α
  | 0, _, value => pure value
  | count + 1, start, value => do foldUp step count (start + 1) (← step start value)

/-- Whether `test` holds of `count` numbers from `start` on; it is asked no further than the first `false`. -/
@[specialize]
def allUp (test : Nat → m Bool) : (count start : Nat) → m Bool
  | 0, _ => pure true
  | count + 1, start => do
    if ← test start then allUp test count (start + 1) else pure false

/-- `item start`, `item (start + 1)`, … for `count` numbers. -/
@[specialize]
def collectUp (item : Nat → m α) : (count start : Nat) → m (List α)
  | 0, _ => pure []
  | count + 1, start => do
    let first ← item start
    return first :: (← collectUp item count (start + 1))

end PagedIndex
