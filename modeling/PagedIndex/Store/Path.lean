import PagedIndex.Failure

/-!
# Paths

Where a path leads from a directory that holds files and no directories. A part that is empty or a single dot
stays where it is, so a file has many paths.
-/

namespace PagedIndex

/-- What a path names. -/
inductive Place where
  /-- A file, if there is one of that name. -/
  | file (name : String)
  /-- A directory: the one that paths start from, or one above it. -/
  | directory
  /-- A name with a slash behind it, as if it were a directory's. -/
  | slashed (name : String)
  /-- What would lie below a name if it were a directory's. -/
  | below (name : String)
  deriving DecidableEq

namespace Place

/-- The most bytes that a name may have. -/
def maxNameBytes : Nat := 255

/-- The parts of a path, which slashes separate. -/
def parts : List Char → List (List Char)
  | [] => [[]]
  | c :: rest =>
    if c = '/' then [] :: parts rest
    else match parts rest with
      | [] => [[c]]
      | part :: later => (c :: part) :: later

/-- Follows a path that has left the directory: nothing is known up there but that there are directories. -/
def above (parts : List String) : Except StoreFault Place :=
  if parts.all fun part => part = "" || part = "." || part = ".." then return directory
  else throw .noSuchFile

def follow : List String → Except StoreFault Place
  | [] => return directory
  | part :: rest =>
    if part = "" || part = "." then follow rest
    else if part = ".." then above rest
    else if rest.isEmpty then
      if part.utf8ByteSize ≤ maxNameBytes then return file part else throw .nameTooLong
    else if rest.all fun later => later = "" then return slashed part
    else return below part

/-- Where a path leads. -/
def ofPath (path : String) : Except StoreFault Place :=
  if path.toList.contains '\x00' then throw .nulInName
  else match (parts path.toList).map String.ofList with
    | "" :: part :: rest => above (part :: rest)
    | parts => follow parts

end Place

end PagedIndex
