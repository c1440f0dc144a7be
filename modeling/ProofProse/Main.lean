import ProofProse.CommandLine

/-! # The program

The program copies the files below the working folder, and those around the paths named on the
command line, into a `Disk`. What it does is decided on that disk. Then it makes the changes that the
disk shows, and prints. -/

namespace ProofProse.Program

/-- The names on an absolute path. -/
def namesOf (path : String) : Place := (Text.split '/' path).filter (!·.isEmpty)

/-- Adds the folders above a place. -/
def addAbove (disk : Disk) (place : Place) : Disk :=
  (List.range place.length).foldl
    (fun disk n => if n = 0 then disk else disk.put (place.take n) .folder) disk

/-- Adds what is at an entry of a folder, folders with all that is below them. Links to folders are
not followed, and what cannot be read is left out. -/
partial def addEntry (disk : Disk) (folder : Place) (entry : IO.FS.DirEntry) : IO Disk := do
  let place := folder ++ [entry.fileName]
  let path := entry.path
  if ← path.isDir then
    if (← path.symlinkMetadata).type == .symlink then return disk
    let entries ← try path.readDir catch _ => pure #[]
    entries.foldlM (fun disk inner => addEntry disk place inner) (disk.put place .folder)
  else
    try
      let content ← IO.FS.readBinFile path
      return disk.put place (.file content.toList)
    catch _ => return disk

/-- Adds what is around a path: a folder and what is below it, or the folder that a file is in. -/
def addPath (disk : Disk) (path : String) : IO Disk := do
  try
    let real ← IO.FS.realPath path
    let folder ← if ← real.isDir then pure real else pure (real.parent.getD real)
    let place := namesOf folder.toString
    let disk := (addAbove disk place).put place .folder
    (← folder.readDir).foldlM (fun disk entry => addEntry disk place entry) disk
  catch _ => return disk

/-- The disk that the program sees. -/
def load (arguments : List String) : IO Disk := do
  let here := (← IO.currentDir).toString
  let disk : Disk := { working := namesOf here }
  let outside := arguments.filter fun argument =>
    argument.startsWith "/" || argument.startsWith ".."
  (here :: outside).foldlM addPath disk

/-- The absolute path of a place. -/
def pathOf (place : Place) : String := "/" ++ String.intercalate "/" place

/-- Writes what is new or changed, and takes away what is gone. -/
def save (old new : Disk) : IO Unit := do
  for (place, entry) in new.entries.toList do
    match entry with
    | .folder => if (old.entry? place).isNone then IO.FS.createDirAll (pathOf place)
    | .file content =>
      if old.entry? place != some entry then
        IO.FS.createDirAll (pathOf place.dropLast)
        IO.FS.writeBinFile (pathOf place) ⟨content.toArray⟩
  for (place, entry) in old.entries.toList do
    match entry with
    | .folder => pure ()
    | .file _ => if (new.entry? place).isNone then IO.FS.removeFile (pathOf place)

end ProofProse.Program

open ProofProse

/-- Runs the program. -/
def main (arguments : List String) : IO UInt32 := do
  let disk ← Program.load arguments
  let result := CommandLine.run disk arguments
  Program.save disk result.disk
  (← IO.getStdout).putStr result.output
  (← IO.getStderr).putStr result.errors
  return UInt32.ofNat result.code
