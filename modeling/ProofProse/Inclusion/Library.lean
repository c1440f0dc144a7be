import ProofProse.Command.Effect
import ProofProse.Disk
import ProofProse.Path.Folding
import ProofProse.Text.Blank

/-! # Libraries

A library is where included files come from. It says which path a target names in a file, and gives
the content of paths. There is a library of files held in memory, one of files on a disk, and one
that has no files at all.

A command names a target, and a few file names are tried for it in order. -/

namespace ProofProse

open Encoding (Bytes)

/-! ### Targets -/

namespace Inclusion

/-- Whether a text ends in `tail`, up to the case of ASCII letters. -/
def hasEnding (tail target : String) : Bool :=
  tail.toList.isSuffixOf (Text.lowerAscii target).toList

/-- The file names to try for a target. A source may leave its ending off, or have none; a package
always has the ending of a style; a class is never read. -/
def candidates (kind : InclusionKind) (target : String) : List String :=
  let target := Text.trimQuotes (Text.trim target)
  if target.isEmpty then []
  else
    match kind with
    | .input => if hasEnding ".tex" target then [target] else [target ++ ".tex", target]
    | .package => if hasEnding ".sty" target then [target] else [target ++ ".sty"]
    | .documentClass => []

end Inclusion

/-! ### Where files come from -/

/-- Why a file of a library could not be read. -/
inductive LibraryFault where
  /-- There is no such file. -/
  | notFound (path : String)
  /-- The file is there, but cannot be read. -/
  | unreadable (message : String)
  /-- The library has no files. -/
  | unsupported (message : String)
  deriving DecidableEq

namespace LibraryFault

/-- The message of a fault. -/
def message : LibraryFault → String
  | notFound path => "File not found: " ++ path
  | unreadable message => "Read error: " ++ message
  | unsupported message => "Not supported: " ++ message

/-- The name of the kind of a fault. -/
def kindName : LibraryFault → String
  | notFound _ => "NotFound"
  | unreadable _ => "ReadError"
  | unsupported _ => "NotSupported"

end LibraryFault

/-- Where included files come from. -/
structure Library where
  /-- The path that a target names in an including file. -/
  resolve : String → String → String
  /-- The content of a path. -/
  read : String → Except LibraryFault Bytes

namespace Library

/-- The path of a target next to the including file. -/
def siblingPath (including target : String) : String := (Path.sibling ⟨including⟩ ⟨target⟩).text

/-- A library without files. -/
def empty : Library where
  resolve _ target := target
  read path := .error (.unsupported ("includes are disabled: " ++ path))

/-! ### Files in memory -/

/-- Files by their folded path, the one added last first. -/
abbrev Shelf := List (String × Bytes)

/-- Adds a file. -/
def Shelf.add (shelf : Shelf) (path : String) (content : Bytes) : Shelf :=
  (siblingPath "" path, content) :: shelf

/-- A library of files in memory. -/
def ofShelf (shelf : Shelf) : Library where
  resolve := siblingPath
  read path :=
    match shelf.lookup path with
    | some content => .ok content
    | none => .error (.notFound path)

/-- A library of files given with their paths; of two files with one path the later counts. -/
def ofFiles (files : List (String × Bytes)) : Library :=
  ofShelf (files.foldl (fun shelf (path, content) => shelf.add path content) [])

/-! ### Files on a disk -/

/-- Where a file is found: at its path, or by its name in one of the folders to search. -/
def locate? (disk : Disk) (folders : List Path) (path : Path) : Option Path :=
  if disk.isFile path then some path
  else if path.isRooted then none
  else
    match path.fileName? with
    | none => none
    | some name => (folders.map fun folder => folder.join ⟨name⟩).find? disk.isFile

/-- A library of the files on a disk, with folders to search for what is not at its path. -/
def onDisk (disk : Disk) (folders : List Path) : Library where
  resolve := siblingPath
  read path :=
    match locate? disk folders ⟨path⟩ with
    | none => .error (.notFound path)
    | some found =>
      match disk.read found with
      | .ok content => .ok content
      | .error fault => .error (.unreadable (found.text ++ ": " ++ fault.message))

end Library

end ProofProse
