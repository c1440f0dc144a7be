import ProofProse.Batch.Output

/-! # Work in steps

Inputs may be worked on at the same time, by workers that share the disk. The work on an input is a
row of operations, and between two of them other workers may change the disk: what was looked for may
be there by the time it is written, and what was written may be gone.

An operation is a call that the system carries out in one piece: to look whether something is there,
to make one folder, to open a file, to write a piece of what it is to hold, to take it away. The
extraction counts as one too. It takes many calls in truth, but all of them only read, so what it
comes to is left open (`Chance`). -/

namespace ProofProse

open Encoding (Bytes)

/-- Work on a disk that others change too. -/
inductive Work (α : Type) where
  /-- Nothing is left to do. -/
  | done (result : α)
  /-- An operation changes the disk. What is left to do then depends on the disk that it found. -/
  | step (change : Disk → Disk) (next : Disk → Work α)

namespace Work

variable {α β : Type}

/-- Work, and more work on what it comes to. -/
protected def bind : Work α → (α → Work β) → Work β
  | done result, more => more result
  | step change next, more => step change fun disk => (next disk).bind more

instance : Monad Work where
  pure := done
  bind := Work.bind

/-- What work has come to, if nothing is left to do. -/
def result? : Work α → Option α
  | done result => some result
  | step _ _ => none

/-- All of the work, while nobody else changes the disk. -/
def run : Work α → Disk → α × Disk
  | done result, disk => (result, disk)
  | step change next, disk => (next disk).run (change disk)

/-- A look at the disk. -/
def look (question : Disk → α) : Work α := step id fun disk => done (question disk)

/-- An action that is one operation. -/
def once (action : DiskAction α) : ExceptT DiskFault Work α :=
  .mk <| step (fun disk => (action.on disk).2) fun disk => done (action.on disk).1

end Work

namespace Batch

open Work (look once)

/-- What the disk between operations does not tell about the work on an input. -/
structure Chance where
  /-- What the extraction comes to. When files change while they are read, this may be anything. -/
  extract : Disk → Except Failure Extraction
  /-- The pieces in which a content is written. -/
  cut : Bytes → List Bytes
  /-- Nothing of a content is left out. -/
  flatten_cut : ∀ content, (cut content).flatten = content
  /-- Whether a piece that is written reaches the file that stands at the place of the one that was
  opened. It does not if that is another file by now. -/
  reaches : Disk → Bool

/-- An input that is read while nothing changes, and whose result is written in one piece. -/
def Chance.steady (options : Options) (input : Path) : Chance where
  extract disk := extractFile options disk input
  cut content := [content]
  flatten_cut content := List.append_nil content
  reaches _ := true

/-! ### Writing a result -/

/-- A folder could not be made. This is no fault if it is there by now. -/
def unlessFolder (path : Path) (fault : DiskFault) : ExceptT DiskFault Work Unit :=
  .mk <| look fun disk => if disk.isFolder path then .ok () else .error fault

/-- Makes a folder, unless there is one. -/
def ensureFolderWork (path : Path) : ExceptT DiskFault Work Unit :=
  tryCatch (once (.ofChange (·.makeFolder path))) (unlessFolder path)

/-- Makes a folder and the folders above it that are missing, the depth of the path being at most
`fuel`. -/
def makeFoldersWork : Nat → Path → ExceptT DiskFault Work Unit
  | 0, _ => throw .notFound
  | fuel + 1, path =>
    if path.text.isEmpty then pure ()
    else
      tryCatch (once (.ofChange (·.makeFolder path))) fun fault =>
        match fault, path.parent? with
        | .notFound, some above => do
          makeFoldersWork fuel above
          ensureFolderWork path
        | fault, _ => unlessFolder path fault

/-- Makes the folder that a file is to stand in. -/
def makeFolderOfWork (path : Path) : ExceptT DiskFault Work Unit :=
  match path.parent? with
  | some folder =>
    if folder.text.isEmpty then pure () else makeFoldersWork (folder.parts.length + 2) folder
  | none => pure ()

/-- Opens a file for writing. -/
def openFile (path : Path) : DiskAction Place := fun disk =>
  match disk.create path with
  | .ok (place, disk) => .ok place disk
  | .error fault => .error fault disk

/-- Writes pieces into a file that has been opened, one behind the other. -/
def writePieces (reaches : Disk → Bool) (place : Place) :
    Nat → List Bytes → ExceptT DiskFault Work Unit
  | _, [] => pure ()
  | start, piece :: pieces => do
    once (.ofChange fun disk => .ok (if reaches disk then disk.fill place start piece else disk))
    writePieces reaches place (start + piece.length) pieces

/-- Writes a file. -/
def writeFileWork (chance : Chance) (path : Path) (text : String) :
    ExceptT DiskFault Work Unit := do
  let place ← once (openFile path)
  writePieces chance.reaches place 0 (chance.cut (Encoding.ofText text))

/-- Writes a file and takes another away. -/
def replaceFileWork (chance : Chance) (written stale : Path) (text : String) :
    ExceptT DiskFault Work Unit := do
  makeFolderOfWork written
  writeFileWork chance written text
  once (removeStale stale)

/-! ### Working on an input -/

/-- Writes the result of an input. What keeps a failure from being written is not told. -/
def resultWork (chance : Chance) (outputs : Outputs) (input : Path) :
    Except Failure Extraction → Work FileReport
  | .ok extraction => do
    let text := proofLines extraction.proofs
    match ← (replaceFileWork chance outputs.proofs outputs.failure text).run with
    | .ok () => return successReport input extraction
    | .error fault => return faultReport input extraction fault
  | .error failure => do
    let text := failureText input failure
    let _ ← (replaceFileWork chance outputs.failure outputs.proofs text).run
    return failureReport input failure

/-- Extracts the proofs of an input and writes its result. -/
def extractionWork (chance : Chance) (outputs : Outputs) (input : Path) : Work FileReport := do
  resultWork chance outputs input (← look chance.extract)

/-- The work on an input. Its two results are looked for one after the other. -/
def work (batch : BatchOptions) (chance : Chance) (input : Path) : Work FileReport :=
  let outputs := outputs batch input
  if batch.skipExisting then do
    if ← look (·.occupied outputs.proofs) then return skippedReport input
    if ← look (·.occupied outputs.failure) then return skippedReport input
    extractionWork chance outputs input
  else extractionWork chance outputs input

end Batch

end ProofProse
