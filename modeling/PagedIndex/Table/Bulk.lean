import PagedIndex.Table.Insert
import PagedIndex.Table.Remove

/-!
# Many entries at once

Lists of entries or keys, one after the other. The first failure ends the list; what was done before it
stays.
-/

namespace PagedIndex.Table

variable {K V σ : Type} [FixedWidth K] [FixedWidth V] [BackingStore σ]

/-- Runs an action on each item of a list and counts how often the answer is yes. -/
def countYes {α : Type} (action : α → Pool.Action σ Bool) : List α → Pool.Action σ Nat
  | [] => return 0
  | item :: rest => do
    let yes ← action item
    let others ← countYes action rest
    return (if yes then 1 else 0) + others

/-- Adds entries; says how many found room. -/
def insertAll (table : Table K V) (entries : List (K × V)) : Pool.Action σ Nat :=
  countYes (fun entry => table.insert entry.1 entry.2) entries

/-- Takes out the entries under several keys; says how many of the keys had any. -/
def removeAll (table : Table K V) (keys : List K) : Pool.Action σ Nat := countYes table.remove keys

def findAll (table : Table K V) (keys : List K) : Pool.Action σ (List (List V)) := keys.mapM table.find

end PagedIndex.Table
