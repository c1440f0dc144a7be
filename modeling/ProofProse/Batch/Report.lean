import ProofProse.Extraction
import ProofProse.Json

/-! # Reports of batches

The report of a batch says what became of each input, in the order of the inputs, and counts. -/

namespace ProofProse

/-- What became of an input. -/
inductive FileStatus where
  /-- Its proofs were written. -/
  | succeeded
  /-- It was given up, or its proofs could not be written. -/
  | failed
  /-- It was not read, since there was a result already. -/
  | skipped
  deriving DecidableEq

/-- The name of a status. -/
def FileStatus.name : FileStatus → String
  | succeeded => "succeeded"
  | failed => "failed"
  | skipped => "skipped"

/-- What became of an input, and what was found in it. -/
structure FileReport where
  /-- The path of the input. -/
  input : String
  /-- What became of it. -/
  status : FileStatus
  /-- The number of its proofs. -/
  proofs : Nat := 0
  /-- The number of proofs that were dropped. -/
  dropped : Nat := 0
  /-- The number of warnings. -/
  warnings : Nat := 0
  /-- Why it failed. -/
  error : Option String := none
  deriving DecidableEq

namespace Batch

/-- The report of an input whose proofs were extracted. -/
def successReport (input : Path) (extraction : Extraction) : FileReport where
  input := input.text
  status := .succeeded
  proofs := extraction.proofs.length
  dropped := extraction.dropped.length
  warnings := extraction.warnings.length

/-- The report of an input that was given up. -/
def failureReport (input : Path) (failure : Failure) : FileReport where
  input := input.text
  status := .failed
  error := some failure.message

/-- The report of an input whose proofs could not be written. -/
def faultReport (input : Path) (extraction : Extraction) (fault : DiskFault) : FileReport :=
  { successReport input extraction with status := .failed, error := some fault.message }

/-- The report of an input that was passed over: there are no proofs to count. -/
def skippedReport (input : Path) : FileReport where
  input := input.text
  status := .skipped
  proofs := 0

end Batch

/-- The report of a batch. -/
structure Summary where
  /-- The reports of the inputs, in order. -/
  files : List FileReport
  deriving DecidableEq

namespace Summary

/-- How many inputs have a status. -/
def count (summary : Summary) (status : FileStatus) : Nat :=
  summary.files.countP fun report => report.status == status

/-- The number of all proofs. -/
def proofs (summary : Summary) : Nat := (summary.files.map FileReport.proofs).foldr (· + ·) 0

/-- The number of all proofs that were dropped. -/
def dropped (summary : Summary) : Nat := (summary.files.map FileReport.dropped).foldr (· + ·) 0

end Summary

/-- The record of an input; the error is left out when there is none. -/
def FileReport.json (report : FileReport) : Json :=
  .record ([("input", .text report.input), ("status", .text report.status.name),
    ("proofs", .number report.proofs), ("skipped_proofs", .number report.dropped),
    ("warnings", .number report.warnings)] ++
    (report.error.map fun error => ("error", Json.text error)).toList)

/-- The record of a batch. -/
def Summary.json (summary : Summary) : Json :=
  .record [("succeeded", .number (summary.count .succeeded)),
    ("failed", .number (summary.count .failed)), ("skipped", .number (summary.count .skipped)),
    ("proofs", .number summary.proofs), ("skipped_proofs", .number summary.dropped),
    ("files", .list (summary.files.map FileReport.json))]

end ProofProse
