import Std.Data.TreeMap

/-!
# Identifiers

A page is named by a 32-bit number that stays with it for good, a frame by its place in the pool.
The largest page number names no page.
-/

namespace PagedIndex

structure PageId where
  number : UInt32
  deriving DecidableEq

namespace PageId

/-- The number that stands for "no page". -/
def invalid : PageId := ⟨4294967295⟩

def isValid (page : PageId) : Bool := page.number != invalid.number

instance : Inhabited PageId := ⟨invalid⟩

instance : Ord PageId := ⟨fun a b => compare a.number b.number⟩

instance : Std.TransOrd PageId where
  eq_swap {a b} := Std.OrientedOrd.eq_swap (a := a.number) (b := b.number)
  isLE_trans {a b c} := Std.TransOrd.isLE_trans (a := a.number) (b := b.number) (c := c.number)

instance : Std.LawfulEqOrd PageId where
  compare_self {a} := Std.ReflOrd.compare_self (a := a.number)
  eq_of_compare {a b} same := by
    cases a; cases b
    exact congrArg PageId.mk (Std.LawfulEqOrd.eq_of_compare same)

/-- A page in running text: `Page(7)`, or `Page(INVALID)`. -/
def text (page : PageId) : String :=
  if page.isValid then "Page(" ++ toString page.number ++ ")" else "Page(INVALID)"

/-- A page in a listing, its number spelled out even when it names no page: `PageId(7)`. -/
def listing (page : PageId) : String := "PageId(" ++ toString page.number ++ ")"

end PageId

structure FrameId where
  index : Nat
  deriving DecidableEq

namespace FrameId

instance : Inhabited FrameId := ⟨⟨0⟩⟩

instance : Ord FrameId := ⟨fun a b => compare a.index b.index⟩

instance : Std.TransOrd FrameId where
  eq_swap {a b} := Std.OrientedOrd.eq_swap (a := a.index) (b := b.index)
  isLE_trans {a b c} := Std.TransOrd.isLE_trans (a := a.index) (b := b.index) (c := c.index)

instance : Std.LawfulEqOrd FrameId where
  compare_self {a} := Std.ReflOrd.compare_self (a := a.index)
  eq_of_compare {a b} same := by
    cases a; cases b
    exact congrArg FrameId.mk (Std.LawfulEqOrd.eq_of_compare same)

/-- A frame in running text: `Frame(3)`. -/
def text (frame : FrameId) : String := "Frame(" ++ toString frame.index ++ ")"

/-- A frame in a listing: `FrameId(3)`. -/
def listing (frame : FrameId) : String := "FrameId(" ++ toString frame.index ++ ")"

end FrameId

end PagedIndex
