import PagedIndex.Store
import PagedIndex.Store.Path

/-!
# Pages in files

A volume is a flat directory of files. Page `p` of a file occupies the bytes from `4096 * p` on; writing it
makes the file as long as that takes, and what lies between reads as zeros. The system may refuse a request, and
a write that it refuses may have put bytes into the file by then.
-/

namespace PagedIndex

/-- A file: its length, and those of its pages that are not all zeros. Bytes behind the length are zero. -/
structure PageFile where
  length : Nat := 0
  pages : Std.TreeMap Nat Page := ∅

namespace PageFile

/-- A file of `length` bytes with the same value. -/
def filled (length : Nat) (byte : UInt8) : PageFile where
  length
  pages := ((length + pageSize - 1) / pageSize).fold (fun page _ pages =>
    pages.insert page (.ofFn fun i => if pageSize * page + i.val < length then byte else 0)) ∅

/-- How many pages the file spans, the last one perhaps in part. -/
def span (file : PageFile) : Nat := (file.length + pageSize - 1) / pageSize

/-- The bytes of a page that lies in the file as a whole. -/
def read (file : PageFile) (page : Nat) : Outcome Page :=
  if pageSize * page + pageSize ≤ file.length then return (file.pages[page]?).getD Page.zero
  else throw (.error (.io .shortPage))

def write (file : PageFile) (page : Nat) (data : Page) : PageFile where
  length := max file.length (pageSize * page + pageSize)
  pages := file.pages.insert page data

/-- Writes the first `count` bytes of a page and leaves the others. -/
def writeFront (file : PageFile) (page : Nat) (data : Page) (count : Nat) : PageFile where
  length := if count = 0 then file.length else max file.length (pageSize * page + min count pageSize)
  pages := file.pages.insert page
    (.ofFn fun i => if i.val < count then data[i] else ((file.pages[page]?).getD Page.zero)[i])

end PageFile

/-- Why the system refuses a request, and how many bytes of a page were in the file by then: all of them, if they
could be written but not synced. -/
structure Trouble where
  fault : StoreFault
  written : Nat := 0

structure Volume where
  files : Std.TreeMap String PageFile := ∅
  /-- What becomes of the next requests for bytes of files, in their order; those after them are served. -/
  troubles : List (Option Trouble) := []

/-- An open file, and how many pages its holder takes it to span. -/
structure FileHandle where
  name : String
  bound : UInt32

namespace Volume

def file? (volume : Volume) (name : String) : Option PageFile := volume.files[name]?

def setFile (volume : Volume) (name : String) (file : PageFile) : Volume :=
  { volume with files := volume.files.insert name file }

/-- The file at a path, if there is one. -/
def find? (volume : Volume) (path : String) : Option PageFile :=
  match Place.ofPath path with
  | .ok (.file name) => volume.file? name
  | _ => none

/-- Puts a file at a path that leads to one; other paths leave the volume as it is. -/
def put (volume : Volume) (path : String) (file : PageFile) : Volume :=
  match Place.ofPath path with
  | .ok (.file name) => volume.setFile name file
  | _ => volume

/-- Why no path leads through a name: it is not that of a directory. -/
def barrier (volume : Volume) (name : String) : StoreFault :=
  if Place.maxNameBytes < name.utf8ByteSize then .nameTooLong
  else if (volume.file? name).isSome then .notDirectory
  else .noSuchFile

/-- Makes a file. The empty path is the directory's own name with a slash behind it, as no file's is. -/
def create (path : String) : EStateM Failure Volume FileHandle := do
  let volume ← get
  match Place.ofPath path with
  | .error fault => throw (.error (.io fault))
  | .ok (.file name) =>
    if (volume.file? name).isSome then throw (.error (.io .fileExists))
    set (volume.setFile name {})
    return ⟨name, 0⟩
  | .ok .directory => throw (.error (.io (if path = "" then .isDirectory else .fileExists)))
  | .ok (.slashed _) => throw (.error (.io .isDirectory))
  | .ok (.below name) => throw (.error (.io (volume.barrier name)))

def openFile (path : String) : EStateM Failure Volume FileHandle := do
  let volume ← get
  match Place.ofPath path with
  | .error fault => throw (.error (.io fault))
  | .ok (.file name) =>
    match volume.file? name with
    | none => throw (.error (.io .noSuchFile))
    | some file => return ⟨name, UInt32.ofNat file.span⟩
  | .ok .directory => throw (.error (.io .isDirectory))
  | .ok (.slashed name) | .ok (.below name) => throw (.error (.io (volume.barrier name)))

def holds (volume : Volume) (path : String) : Bool :=
  match Place.ofPath path with
  | .ok (.file name) => (volume.file? name).isSome
  | .ok .directory => true
  | _ => false

/-- Opens a file, made new if there is nothing at its path. -/
def ensure (path : String) : EStateM Failure Volume FileHandle := do
  if (← get).holds path then openFile path else create path

end Volume

/-- A file of a volume, used as a store of pages. -/
structure FileStore where
  volume : Volume
  handle : FileHandle

namespace FileStore

def file (store : FileStore) : PageFile := (store.volume.file? store.handle.name).getD {}

/-- The bytes that the file's holder takes it to have. -/
def size (store : FileStore) : Nat := store.handle.bound.toNat * pageSize

/-- Takes out what becomes of a request. -/
def meet : EStateM Failure FileStore (Option Trouble) := do
  let store ← get
  set { store with volume := { store.volume with troubles := store.volume.troubles.tail } }
  return store.volume.troubles.headD none

def setFile (file : PageFile) : EStateM Failure FileStore Unit :=
  modify fun store => { store with volume := store.volume.setFile store.handle.name file }

/-- A page past the end reads as zeros. -/
def read (page : PageId) : EStateM Failure FileStore Page := do
  if (← get).handle.bound ≤ page.number then return Page.zero
  match ← meet with
  | some trouble => throw (.error (.io trouble.fault))
  | none => (← get).file.read page.number.toNat

/-- The bound is raised last, and not at all by a write that fails. -/
def write (page : PageId) (data : Page) : EStateM Failure FileStore Unit := do
  match ← meet with
  | some trouble =>
    setFile ((← get).file.writeFront page.number.toNat data trouble.written)
    throw (.error (.io trouble.fault))
  | none =>
    setFile ((← get).file.write page.number.toNat data)
    let next ← page.succ
    modify fun store => { store with
      handle := { store.handle with bound := max store.handle.bound next } }

instance : BackingStore FileStore where
  read := read
  write := write
  bound store := return store.handle.bound

end FileStore

end PagedIndex
