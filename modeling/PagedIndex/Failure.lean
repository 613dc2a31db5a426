import PagedIndex.Identifier
import PagedIndex.Page.Kind

/-!
# Failures

An operation fails in one of two ways. An `Error` is an answer: the caller may go on, and whatever the
operation did before it is kept. A `Violation` is a call outside what its callee promised to handle.
-/

namespace PagedIndex

inductive StoreFault where
  | readRefused
  | writeRefused
  | noSuchFile
  | fileExists
  | notDirectory
  | isDirectory
  | nameTooLong
  | nulInName
  /-- The file ends inside the page. -/
  | shortPage
  /-- A fault that a store describes in its own words. -/
  | described (text : String)
  deriving DecidableEq

def StoreFault.text : StoreFault → String
  | readRefused => "injected read failure"
  | writeRefused => "injected write failure"
  | noSuchFile => "No such file or directory (os error 2)"
  | fileExists => "File exists (os error 17)"
  | notDirectory => "Not a directory (os error 20)"
  | isDirectory => "Is a directory (os error 21)"
  | nameTooLong => "File name too long (os error 36)"
  | nulInName => "file name contained an unexpected NUL byte"
  | shortPage => "failed to fill whole buffer"
  | described text => text

inductive ConfigFault where
  | headerPage (depth limit : Nat)
  | directoryPage (depth limit : Nat)
  | bucketPage (size capacity : Nat)
  | headerDepth (depth limit : Nat)
  | directoryDepth (depth limit : Nat)
  | bucketSize (size capacity : Nat)
  | described (text : String)
  deriving DecidableEq

def ConfigFault.text : ConfigFault → String
  | headerPage depth limit => s!"header max_depth {depth} exceeds {limit}"
  | directoryPage depth limit => s!"directory max_depth {depth} exceeds {limit}"
  | bucketPage size capacity => s!"bucket max_size {size} must be in 1..={capacity}"
  | headerDepth depth limit => s!"header_max_depth {depth} exceeds {limit}"
  | directoryDepth depth limit => s!"directory_max_depth {depth} exceeds {limit}"
  | bucketSize size capacity => s!"bucket_max_size {size} must be in 1..={capacity}"
  | described text => text

inductive DirectoryFault where
  | deepSlot (slot localDepth globalDepth : Nat)
  | unevenDepths (bucket : PageId) (first second : Nat)
  | slotCount (bucket : PageId) (count expected : Nat)
  | strayEntry (entry : Nat) (bucket : PageId) (slot : Nat) (directory : PageId)
  | described (text : String)
  deriving DecidableEq

def DirectoryFault.text : DirectoryFault → String
  | deepSlot slot localDepth globalDepth =>
    s!"slot {slot} has local depth {localDepth} above global depth {globalDepth}"
  | unevenDepths bucket first second =>
    s!"{bucket.text} has local depths {first} and {second}"
  | slotCount bucket count expected =>
    s!"{bucket.text} referenced by {count} slots, expected {expected}"
  | strayEntry entry bucket slot directory =>
    s!"entry {entry} of bucket {bucket.text} does not route to slot {slot} of directory {directory.text}"
  | described text => text

/-- The answers that say no. -/
inductive Error where
  | io (fault : StoreFault)
  | noFreeFrames
  | invalidPageId (page : PageId)
  | pageNotResident (page : PageId)
  | invalidFrameId (frame : FrameId)
  | unknownFrame (frame : FrameId)
  | evictableUnchanged (frame : FrameId) (evictable : Bool)
  | frameNotEvictable (frame : FrameId)
  | pageKindMismatch (expected found : PageKind)
  | schedulerShutdown
  | invalidConfig (fault : ConfigFault)
  | corruptDirectory (fault : DirectoryFault)
  deriving DecidableEq

def Error.message : Error → String
  | io fault => "I/O error: " ++ fault.text
  | noFreeFrames => "No free frames available in buffer pool"
  | invalidPageId page => "Invalid page ID: " ++ page.text
  | pageNotResident page => page.text ++ " is not resident in the buffer pool"
  | invalidFrameId frame => "Invalid frame ID: " ++ frame.text
  | unknownFrame frame => frame.text ++ " has no recorded accesses"
  | evictableUnchanged frame evictable =>
    frame.text ++ " is already marked evictable=" ++ (if evictable then "true" else "false")
  | frameNotEvictable frame => frame.text ++ " is not evictable"
  | pageKindMismatch expected found =>
    "expected " ++ expected.text ++ " page, found " ++ found.text
  | schedulerShutdown => "disk scheduler has shut down"
  | invalidConfig fault => "invalid configuration: " ++ fault.text
  | corruptDirectory fault => "corrupt hash directory: " ++ fault.text

/-- The calls that no one may make. -/
inductive Violation where
  | headerSlot (slot : Nat)
  | directorySlot (slot size : Nat)
  | bucketEntry (entry size : Nat)
  | localDepthAboveMax (depth limit : Nat)
  | localDepthZero (slot : Nat)
  | globalDepthAtMax (depth : Nat)
  | globalDepthZero
  | guardReleased
  | historyDepthZero
  | poolEmpty
  /-- A number leaves its word, or a shift is as wide as its word. -/
  | overflow
  | divisionByZero
  /-- Bytes outside the buffer. -/
  | outOfBounds
  /-- The replacer disagrees with the pin counts. -/
  | replacerOutOfSync
  /-- A split image takes more entries than its bucket had. -/
  | imageOverflow
  /-- The store gave up in the middle of a request. -/
  | storeAborted
  deriving DecidableEq

/-- The text of a violation, for those that explain themselves. -/
def Violation.message? : Violation → Option String
  | headerSlot slot => some s!"directory index {slot} out of range"
  | directorySlot slot size =>
    some s!"bucket index {slot} out of range for directory of size {size}"
  | bucketEntry entry size => some s!"entry index {entry} out of range for bucket of size {size}"
  | localDepthAboveMax depth limit => some s!"local depth {depth} exceeds max depth {limit}"
  | localDepthZero slot => some s!"local depth of slot {slot} is already 0"
  | globalDepthAtMax depth => some s!"global depth {depth} already at max depth"
  | globalDepthZero => some "global depth is already 0"
  | guardReleased => some "page guard accessed after release"
  | historyDepthZero => some "LRU-K requires k >= 1"
  | poolEmpty => some "pool_size must be > 0"
  | overflow | divisionByZero | outOfBounds | replacerOutOfSync | imageOverflow | storeAborted => none

inductive Failure where
  | error (error : Error)
  | violation (violation : Violation)
  deriving DecidableEq

/-- The answer of an operation without state. -/
abbrev Outcome := Except Failure

/-- A stateless operation as a step of a stateful one: it leaves the state alone. -/
instance {σ : Type} : MonadLift Outcome (EStateM Failure σ) where
  monadLift
    | .ok value => pure value
    | .error failure => throw failure

end PagedIndex
