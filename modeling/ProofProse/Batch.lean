import ProofProse.Batch.Input
import ProofProse.Batch.Pool

/-! # Batches

A batch extracts the proofs of many inputs and writes a result for each. `Batch.process` handles one
input while nobody else changes the disk. `Batch.run` handles all of them: one after the other up to
the first failure, or by a pool of workers. What workers do between the operations of each other is
left to chance, so `Batch.runBy` has a schedule for it; `Batch.run` takes that in which each input is
finished before the next is begun. -/

namespace ProofProse.Batch

/-! ### One input -/

/-- What became of an input: its report, the failure if there was one, and the disk behind it. -/
structure Processed where
  /-- The report. -/
  report : FileReport
  /-- The failure. -/
  failure : Option Failure
  /-- The disk. -/
  disk : Disk

/-- Extracts the proofs of an input and writes them. -/
def extractAndWrite (options : Options) (outputs : Outputs) (disk : Disk) (input : Path) :
    Processed :=
  match extractFile options disk input with
  | .ok extraction =>
    match writeProofs outputs extraction disk with
    | .ok () disk => ⟨successReport input extraction, none, disk⟩
    | .error fault disk => ⟨faultReport input extraction fault, some (.io fault.message), disk⟩
  | .error failure =>
    match writeFailure outputs input failure disk with
    | .ok () disk => ⟨failureReport input failure, some failure, disk⟩
    | .error _ disk => ⟨failureReport input failure, some failure, disk⟩

/-- Handles one input. -/
def process (batch : BatchOptions) (options : Options) (disk : Disk) (input : Path) : Processed :=
  let outputs := outputs batch input
  if batch.skipExisting && hasResult disk outputs then ⟨skippedReport input, none, disk⟩
  else extractAndWrite options outputs disk input

/-! ### All inputs -/

/-- Handles inputs in order up to the first failure; `reports` holds the reports of those before,
last one first. -/
def processFrom (batch : BatchOptions) (options : Options) (reports : List FileReport)
    (disk : Disk) : List Path → Except Failure (List FileReport) × Disk
  | [] => (.ok reports.reverse, disk)
  | input :: inputs =>
    let processed := process batch options disk input
    match processed.failure with
    | some failure => (.error failure, processed.disk)
    | none => processFrom batch options (processed.report :: reports) processed.disk inputs

/-- Writes the summary of a batch. -/
def writeSummary (disk : Disk) (path : Path) (summary : Summary) : Except Failure Disk :=
  match disk.write path (Encoding.ofText summary.json.print) with
  | .ok disk => .ok disk
  | .error fault => .error (.io fault.message)

/-- Ends a batch with its summary. -/
def conclude (batch : BatchOptions) (disk : Disk) (summary : Summary) :
    Except Failure Summary × Disk :=
  match batch.summary with
  | none => (.ok summary, disk)
  | some path =>
    match writeSummary disk path summary with
    | .ok disk => (.ok summary, disk)
    | .error failure => (.error failure, disk)

/-- Ends a batch whose inputs have been worked on. -/
def Pool.conclude (batch : BatchOptions) (pool : Pool) : Except Failure Summary × Disk :=
  Batch.conclude batch pool.disk ⟨pool.reports⟩

/-- Runs a batch by a pool whose workers take turns as a schedule says. -/
def runBy (schedule : List Nat) (batch : BatchOptions) (chance : Nat → Path → Chance) (disk : Disk)
    (inputs : List Path) : Except Failure Summary × Disk :=
  ((Pool.start batch chance disk inputs).play batch.jobs schedule).conclude batch

/-- Runs a batch. -/
def run (batch : BatchOptions) (options : Options) (disk : Disk) (inputs : List Path) :
    Except Failure Summary × Disk :=
  if batch.failFast then
    match processFrom batch options [] disk inputs with
    | (.error failure, disk) => (.error failure, disk)
    | (.ok reports, disk) => conclude batch disk ⟨reports⟩
  else
    let pool := Pool.start batch (fun _ => .steady options) disk inputs
    ((List.range inputs.length).foldl (Pool.finish batch.jobs) pool).conclude batch

end ProofProse.Batch
