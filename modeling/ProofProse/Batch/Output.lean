import ProofProse.Batch.Report

/-! # Results of batches

The result of an input is a file of its proofs, one to a line, or a file that tells why the input was
given up. The two stand side by side below the folder for results, at the place that the input has
below the folder of inputs. When one is written the other is taken away. -/

namespace ProofProse

/-- How a batch is run. -/
structure BatchOptions where
  /-- The folder of inputs. -/
  inputRoot : Path := ⟨"texes"⟩
  /-- The folder for results. -/
  outputRoot : Path := ⟨"proofs"⟩
  /-- How many inputs may be worked on at a time. Where nobody says, this is the number of processors,
  or one if that is not known, as here. -/
  jobs : Nat := 1
  /-- Whether inputs with a result are passed over. -/
  skipExisting : Bool := false
  /-- Whether the first failure ends the batch. -/
  failFast : Bool := false
  /-- Where a summary is written, if it is. -/
  summary : Option Path := none

/-- One input after the other, up to the first failure. -/
def BatchOptions.sequential : BatchOptions where
  jobs := 1
  failFast := true

namespace Batch

/-- The paths of the proofs and of the failure of an input. -/
structure Outputs where
  /-- The file of proofs. -/
  proofs : Path
  /-- The file that tells of a failure. -/
  failure : Path
  deriving DecidableEq

/-- The place of an input below the folder of inputs. An input that is not below it keeps only its
file name. -/
def relativePath (options : BatchOptions) (input : Path) : Path :=
  match input.below? options.inputRoot with
  | some path => path
  | none =>
    match input.fileName? with
    | some name => ⟨name⟩
    | none => input

/-- The paths of the results of an input. -/
def outputs (options : BatchOptions) (input : Path) : Outputs :=
  let base := options.outputRoot.join (relativePath options input)
  ⟨base.withEnding "txt", base.withEnding "err"⟩

/-- Whether an input has a result. -/
def hasResult (disk : Disk) (outputs : Outputs) : Bool :=
  disk.occupied outputs.proofs || disk.occupied outputs.failure

/-! ### Writing results -/

/-- Makes the folder that a file is to stand in. -/
def makeFolderOf (path : Path) : DiskAction Unit :=
  match path.parent? with
  | some folder => if folder.text.isEmpty then pure () else Disk.makeFolders folder
  | none => pure ()

/-- Takes a file away, if there is one. -/
def removeStale (path : Path) : DiskAction Unit := fun disk =>
  match disk.remove path with
  | .ok disk => .ok () disk
  | .error .notFound => .ok () disk
  | .error fault => .error fault disk

/-- Proofs, one to a line. -/
def proofLines (proofs : List Proof) : String :=
  String.join (proofs.map fun proof => proof.text ++ "\n")

/-- The text that tells of a failure. -/
def failureText (input : Path) (failure : Failure) : String :=
  failure.message ++ "\n\n" ++ failure.written ++ "\n\nwhile processing " ++ input.text ++ "\n"

/-- Writes a file and takes another away. -/
def replaceFile (written stale : Path) (text : String) : DiskAction Unit := do
  makeFolderOf written
  .ofChange (·.write written (Encoding.ofText text))
  removeStale stale

/-- Writes the proofs of an input. -/
def writeProofs (outputs : Outputs) (extraction : Extraction) : DiskAction Unit :=
  replaceFile outputs.proofs outputs.failure (proofLines extraction.proofs)

/-- Writes why an input was given up. -/
def writeFailure (outputs : Outputs) (input : Path) (failure : Failure) : DiskAction Unit :=
  replaceFile outputs.failure outputs.proofs (failureText input failure)

end Batch

end ProofProse
