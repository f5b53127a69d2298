import Patchbay.Journal

/-
Where the text of a patch comes from.

A loader finds the text at a location.  One kind of loader is any function; another
reads from a folder of files, which is given here by its contents.  A location that
leads to nothing is told apart from one that leads to something unreadable: a
folder, a path through a file, or bytes that are not text.
-/

namespace Patchbay

/-- What a location leads to, and what the journal says about the search. -/
structure Loader where
  fetch : String → Except Error String × List Entry

/-- What a file or folder holds. -/
inductive FileContent where
  | text (s : String)
  | bytes (bs : List UInt8)
  | folder

namespace Loader

/-- A loader that asks a function. -/
def ofFunction (f : String → Option String) : Loader where
  fetch location :=
    match f location with
    | some source => (.ok source, [])
    | none => (.error (.noSuchPatch location), [])

/-! ### Folders -/

/-- The files of a folder by their paths. -/
abbrev Files := List (String × FileContent)

/-- A path from its parts, outermost first. -/
def pathOf (parts : List String) : String :=
  String.intercalate "/" parts

/-- What a path leads to.  The folder itself has the empty path, and every path below which a file
lies is a folder. -/
def contentAt? (files : Files) (parts : List String) : Option FileContent :=
  if parts.isEmpty then some .folder
  else
    match files.lookup (pathOf parts) with
    | some content => some content
    | none =>
      if files.any fun (path, _) => path.startsWith (pathOf parts ++ "/") then some .folder
      else none

/-- How a walk along a path can end. -/
inductive Walk where
  | missing
  | blocked
  | arrived (content : FileContent)

/-- Longest name of a file, in bytes. -/
def maxNameSize : Nat := 255

/-- Longest path that can be followed, in bytes. -/
def maxPathSize : Nat := 4095

/-- A part of a path that names nothing new: the folder again, or the one around it. -/
def staysAmongFolders (part : String) : Bool :=
  part == "" || part == "." || part == ".."

/-- What lies beyond the files that are known.  There are folders around one another, and no name
in them leads to anything. -/
def outside : List String → Walk
  | [] => .arrived .folder
  | part :: rest =>
    if staysAmongFolders part then outside rest
    else if maxNameSize < part.utf8ByteSize then .blocked
    else .missing

/-- Walk along the parts of a path, starting from a folder given by the parts of its own path,
innermost first. -/
def walk (files : Files) (here : List String) : List String → Walk
  | [] =>
    match contentAt? files here.reverse with
    | some content => .arrived content
    | none => .missing
  | part :: rest =>
    match contentAt? files here.reverse with
    | none => .missing
    | some (.text _) => .blocked
    | some (.bytes _) => .blocked
    | some .folder =>
      if part = "" ∨ part = "." then walk files here rest
      else if part = ".." then
        match here with
        | _ :: outer => walk files outer rest
        | [] => outside rest
      else if maxNameSize < part.utf8ByteSize then .blocked
      else walk files (part :: here) rest

/-- The text of bytes that are text. -/
def textOfBytes (bs : List UInt8) : Option String :=
  String.fromUTF8? ⟨bs.toArray⟩

/-- The text that a walk has led to. -/
def readWalk (location : String) : Walk → Except Error String
  | .missing => .error (.noSuchPatch location)
  | .blocked => .error (.unreadable "not a directory")
  | .arrived .folder => .error (.unreadable "is a directory")
  | .arrived (.text s) => .ok s
  | .arrived (.bytes bs) =>
    match textOfBytes bs with
    | some s => .ok s
    | none => .error (.unreadable "stream did not contain valid UTF-8")

/-- The full path of a location: it is taken from the root, unless it starts at the top. -/
def fullPath (root : Option String) (location : String) : String :=
  match root with
  | none => location
  | some root =>
    if location.startsWith "/" then location
    else if root.isEmpty || root.endsWith "/" then root ++ location
    else root ++ "/" ++ location

/-- Where a location leads, from a root folder with these files if there is one.  A path that is
too long, or that holds a character which ends paths, is not followed at all. -/
def find (root : Option String) (files : Files) (location : String) : Walk :=
  let path := fullPath root location
  if path.toList.any (· == '\x00') then .blocked
  else if maxPathSize < path.utf8ByteSize then .blocked
  else if path.isEmpty then .missing
  else if root.isNone || location.startsWith "/" then outside (path.splitOn "/")
  else walk files [] (location.splitOn "/")

/-- A loader that reads files, relative to a root folder with these contents.  Without a root, and
outside of it, there are no files. -/
def ofFiles (root : Option String) (files : Files) : Loader where
  fetch location :=
    (readWalk location (find root files location),
      [.debug s!"reading patch {fullPath root location}"])

end Loader

end Patchbay
