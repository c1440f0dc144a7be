import Std.Data.HashMap
import ProofProse.Encoding
import ProofProse.Path

/-! # Disks

A disk holds files and folders by their place: the list of names that leads to them from the top. A
working folder says where paths that do not start at the top begin. `Disk.locate` finds the place of
a path; on the way every name must be that of a folder.

All operations fail the way an operating system does, with a fault that has a message. A reading or a
single change is a function of the disk; a `DiskAction` is several changes, of which the first may
be made before a later one fails. -/

namespace ProofProse

open Encoding (Bytes)

/-- Why an operation on files failed. -/
inductive DiskFault where
  /-- Nothing is there. -/
  | notFound
  /-- Something is there already. -/
  | occupied
  /-- A file stands where a folder is needed. -/
  | notFolder
  /-- A folder stands where a file is needed. -/
  | isFolder
  /-- A text is not in UTF-8. -/
  | notText
  /-- A name or a whole path is longer than it may be. -/
  | nameTooLong
  /-- A path holds the zero character. -/
  | zeroInPath
  deriving DecidableEq

/-- The message of a fault. -/
def DiskFault.message : DiskFault → String
  | notFound => "No such file or directory (os error 2)"
  | occupied => "File exists (os error 17)"
  | notFolder => "Not a directory (os error 20)"
  | isFolder => "Is a directory (os error 21)"
  | notText => "stream did not contain valid UTF-8"
  | nameTooLong => "File name too long (os error 36)"
  | zeroInPath => "file name contained an unexpected NUL byte"

/-- The names that lead from the top to a file or folder. -/
abbrev Place := List String

/-- What is at a place. -/
inductive DiskEntry where
  /-- A file with its content. -/
  | file (content : Bytes)
  /-- A folder. -/
  | folder
  deriving DecidableEq

/-- Files and folders. -/
structure Disk where
  /-- What is at each place below the top. -/
  entries : Std.HashMap Place DiskEntry := {}
  /-- Where paths begin that do not start at the top. -/
  working : Place := []

namespace Disk

/-- What is at a place; the top is a folder. -/
def entry? (disk : Disk) (place : Place) : Option DiskEntry :=
  if place.isEmpty then some .folder else disk.entries[place]?

/-- Puts something at a place. -/
def put (disk : Disk) (place : Place) (entry : DiskEntry) : Disk :=
  { disk with entries := disk.entries.insert place entry }

/-- Takes away what is at a place. -/
def erase (disk : Disk) (place : Place) : Disk :=
  { disk with entries := disk.entries.erase place }

/-! ### Places of paths -/

/-- How many bytes a name may have. -/
def nameLimit : Nat := 255

/-- How many bytes a path may have. -/
def pathLimit : Nat := 4095

/-- The place one component further. Only a folder can be left downwards or upwards. -/
def enter (disk : Disk) (place : Place) (component : Path.Component) : Except DiskFault Place :=
  match component with
  | .root => .ok []
  | component =>
    match disk.entry? place with
    | none => .error .notFound
    | some (.file _) => .error .notFolder
    | some .folder =>
      match component with
      | .name s => if s.utf8ByteSize > nameLimit then .error .nameTooLong else .ok (place ++ [s])
      | .parent => .ok place.dropLast
      | _ => .ok place

/-- Whether a path ends in a slash. -/
def endsInSlash (path : Path) : Bool := path.text.toList.getLast? == some '/'

/-- Whether a path ends in a dot as a part, slashes behind it left aside. -/
def endsInDot (path : Path) : Bool := (path.parts.filter (· != "")).getLast? == some "."

/-- Whether the text of a path asks for a folder: it ends in a slash or in a dot. -/
def asksFolder (path : Path) : Bool := endsInSlash path || endsInDot path

/-- The fault of a path that ends in a dot, when what is before the dot is no folder. -/
def dotFault : Option DiskEntry → DiskFault
  | some _ => .notFolder
  | none => .notFound

/-- The place of a path. The last name need not exist. -/
def place (disk : Disk) (path : Path) : Except DiskFault Place :=
  if path.text.contains '\x00' then .error .zeroInPath
  else if path.text.isEmpty then .error .notFound
  else if path.text.utf8ByteSize > pathLimit then .error .nameTooLong
  else path.components.foldlM disk.enter disk.working

/-- What is at a path. -/
def find (disk : Disk) (path : Path) : Except DiskFault (Place × DiskEntry) := do
  let place ← disk.place path
  match disk.entry? place with
  | none => .error .notFound
  | some .folder => .ok (place, .folder)
  | some (.file content) =>
    if asksFolder path then .error .notFolder else .ok (place, .file content)

/-- Whether a file is at a path. -/
def isFile (disk : Disk) (path : Path) : Bool :=
  match disk.find path with
  | .ok (_, .file _) => true
  | _ => false

/-- Whether a folder is at a path. -/
def isFolder (disk : Disk) (path : Path) : Bool :=
  match disk.find path with
  | .ok (_, .folder) => true
  | _ => false

/-- Whether anything is at a path. -/
def occupied (disk : Disk) (path : Path) : Bool := (disk.find path).isOk

/-! ### Reading -/

/-- The content of a file. -/
def read (disk : Disk) (path : Path) : Except DiskFault Bytes :=
  match disk.find path with
  | .ok (_, .file content) => .ok content
  | .ok (_, .folder) => .error .isFolder
  | .error fault => .error fault

/-- The text of a file in UTF-8. -/
def readText (disk : Disk) (path : Path) : Except DiskFault String := do
  match Encoding.text? (← disk.read path) with
  | some text => .ok text
  | none => .error .notText

/-- Whether a place is below another. -/
def isBelow (folder place : Place) : Bool :=
  folder.isPrefixOf place && folder.length < place.length

/-- All places below a folder. -/
def placesBelow (disk : Disk) (folder : Place) : List Place :=
  disk.entries.keys.filter (isBelow folder)

/-- The places of all files below a folder. -/
def filesBelow (disk : Disk) (folder : Place) : List Place :=
  (disk.placesBelow folder).filter fun place => disk.entry? place != some .folder

/-! ### Writing -/

/-- Opens a file for writing: it is there, and empty. A path that ends in a slash names a folder,
whether there is one or not. -/
def create (disk : Disk) (path : Path) : Except DiskFault (Place × Disk) := do
  let place ← disk.place path
  match disk.entry? place with
  | some .folder => .error .isFolder
  | entry =>
    if endsInDot path then .error (dotFault entry)
    else if endsInSlash path then .error .isFolder
    else .ok (place, disk.put place (.file []))

/-- Writes into the file at a place, from one byte on. What the file has behind what is written stays,
and one that is too short is filled up with zeros. When there is no file any more, what is written is
lost. -/
def fill (disk : Disk) (place : Place) (start : Nat) (content : Bytes) : Disk :=
  match disk.entry? place with
  | some (.file old) =>
    disk.put place <| .file <|
      old.take start ++ List.replicate (start - old.length) 0 ++ content ++
        old.drop (start + content.length)
  | _ => disk

/-- Writes a file. -/
def write (disk : Disk) (path : Path) (content : Bytes) : Except DiskFault Disk :=
  (disk.create path).map fun (place, disk) => disk.fill place 0 content

/-- Takes a file away. -/
def remove (disk : Disk) (path : Path) : Except DiskFault Disk := do
  match ← disk.find path with
  | (_, .folder) => .error .isFolder
  | (place, .file _) => .ok (disk.erase place)

/-- Makes one folder. A dot at the end stands for a folder that is there already. -/
def makeFolder (disk : Disk) (path : Path) : Except DiskFault Disk := do
  let place ← disk.place path
  match disk.entry? place with
  | some .folder => .error .occupied
  | entry =>
    if endsInDot path then .error (dotFault entry)
    else if entry.isSome then .error .occupied
    else .ok (disk.put place .folder)

end Disk

/-! ### Actions -/

/-- An action on a disk. When it fails, what it did before stays done. -/
abbrev DiskAction := EStateM DiskFault Disk

/-- What an action comes to on a disk, and the disk behind it. -/
def DiskAction.on {α : Type} (action : DiskAction α) (disk : Disk) : Except DiskFault α × Disk :=
  match action disk with
  | .ok a disk => (.ok a, disk)
  | .error fault disk => (.error fault, disk)

/-- The action of a change that fails as a whole or not at all. -/
def DiskAction.ofChange (change : Disk → Except DiskFault Disk) : DiskAction Unit := fun disk =>
  match change disk with
  | .ok disk => .ok () disk
  | .error fault => .error fault disk

namespace Disk

/-- Makes a folder, unless there is one. -/
def ensureFolder (path : Path) : DiskAction Unit := fun disk =>
  match disk.makeFolder path with
  | .ok disk => .ok () disk
  | .error fault => if disk.isFolder path then .ok () disk else .error fault disk

/-- Makes a folder and the folders above it that are missing, the depth of the path being at most
`fuel`. -/
def makeFoldersWithin : Nat → Path → DiskAction Unit
  | 0, _ => throw .notFound
  | fuel + 1, path => fun disk =>
    if path.text.isEmpty then .ok () disk
    else
      match ensureFolder path disk, path.parent? with
      | .error .notFound disk, some above =>
        (do makeFoldersWithin fuel above; ensureFolder path : DiskAction Unit) disk
      | result, _ => result

/-- Makes a folder and the folders above it that are missing. -/
def makeFolders (path : Path) : DiskAction Unit := makeFoldersWithin (path.parts.length + 2) path

end Disk

end ProofProse
