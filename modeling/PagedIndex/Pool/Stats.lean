import PagedIndex.Failure
import PagedIndex.Text.Decimal

/-!
# Pool statistics

Counters of what the pool did. A counter that is full starts again at zero.
-/

namespace PagedIndex

structure Stats where
  hits : UInt64 := 0
  misses : UInt64 := 0
  evictions : UInt64 := 0
  reads : UInt64 := 0
  writes : UInt64 := 0
  deletes : UInt64 := 0
  deriving DecidableEq

namespace Stats

def toList (stats : Stats) : List UInt64 :=
  [stats.hits, stats.misses, stats.evictions, stats.reads, stats.writes, stats.deletes]

/-- The share of fetches that found their page in the pool; zero before the first fetch. -/
def hitRate (stats : Stats) : Outcome Float :=
  let total := stats.hits.toNat + stats.misses.toNat
  if Nat.pow 2 64 ≤ total then throw (.violation .overflow)
  else if total = 0 then return 0
  else return stats.hits.toFloat / (UInt64.ofNat total).toFloat

/-- All counters in one line, and the hit rate in percent. -/
def text (stats : Stats) : Outcome String := do
  let rate := Decimal.twoPlaces ((← stats.hitRate) * 100)
  return "Stats \x7b hits: " ++ toString stats.hits ++ ", misses: " ++ toString stats.misses ++
    ", evictions: " ++ toString stats.evictions ++ ", reads: " ++ toString stats.reads ++
    ", writes: " ++ toString stats.writes ++ ", deletes: " ++ toString stats.deletes ++
    ", hit_rate: " ++ rate ++ "% \x7d"

end Stats

end PagedIndex
