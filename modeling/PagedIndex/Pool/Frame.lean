import PagedIndex.Page

/-!
# Frames

A frame is a place for one page, with the number of pins that keep the page there.
-/

namespace PagedIndex

structure Frame where
  page : Page := Page.zero
  /-- The page that the bytes belong to. -/
  holds : Option PageId := none
  pins : Nat := 0
  /-- Whether the bytes may differ from the stored ones. -/
  dirty : Bool := false

namespace Frame

def empty : Frame := {}

def isPinned (frame : Frame) : Bool := 0 < frame.pins

/-- One more pin; their number has to stay a word. -/
def pin (frame : Frame) : Outcome Frame :=
  if frame.pins + 1 < wordBound then return { frame with pins := frame.pins + 1 }
  else throw (.violation .overflow)

/-- One pin fewer, if there is one. -/
def unpin? (frame : Frame) : Option Frame :=
  if frame.pins = 0 then none else some { frame with pins := frame.pins - 1 }

end Frame

end PagedIndex
