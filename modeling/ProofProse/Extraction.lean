import ProofProse.Scan.Loop

/-! # Extracting proofs

A file is scanned from proof to proof. Each proof is completed or dropped, and the file ends or is
given up. `State.history` is the whole course of a scan; `extract` sums it up.

`renderBody` takes a text for the body of one proof. -/

namespace ProofProse

/-- What became of a proof. -/
inductive Outcome where
  /-- The proof is complete. -/
  | completed (proof : Proof)
  /-- The proof was dropped. -/
  | dropped (reason : DropReason)
  deriving DecidableEq

/-- The state of a scan that is about to begin. -/
def State.ofSource (setting : Setting) (source path : String) : State :=
  .start path (Source.tokens source path setting.options.corrections)

/-- All tokens left are taken. -/
def State.drain (s : State) : State :=
  { s with stream := s.stream.skipWhile fun _ => true }

/-- Scans to the next outcome, over at most `fuel` proofs without text. -/
def State.nextWithin (setting : Setting) : Nat → State → Except Failure (Option Outcome) × State
  | 0, s => (.error (.tokenBudgetExceeded setting.options.fileLimit), s)
  | fuel + 1, s =>
    match Scan.scan setting .file s with
    | .ok (.proofEnd (some proof)) s => (.ok (some (.completed proof)), s)
    | .ok (.proofEnd none) s => nextWithin setting fuel s
    | .ok .goOn s => nextWithin setting fuel s
    | .ok .close s => (.ok none, s.drain)
    | .ok .endDocument s => (.ok none, s.drain)
    | .error (.drop reason) s => (.ok (some (.dropped reason)), s.abandonProof)
    | .error (.fatal failure) s => (.error failure, s)

/-- Scans to the next proof that is completed or dropped. At the end of the file there is none. -/
def State.nextOutcome (setting : Setting) (s : State) : Except Failure (Option Outcome) × State :=
  s.nextWithin setting (Scan.rounds setting)

/-- An outcome, and what could be seen of the state behind it. -/
structure Step where
  /-- The outcome. -/
  outcome : Outcome
  /-- How many tokens had been taken. -/
  consumed : Nat
  /-- How many warnings there were. -/
  warningCount : Nat
  /-- The files being read, outermost first. -/
  includes : List String
  deriving DecidableEq

/-- The course of a scan: the outcomes, how it ended, and the last state. -/
structure History where
  /-- The outcomes in order. -/
  steps : List Step
  /-- The failure that ended the scan, if one did. -/
  failure : Option Failure
  /-- The last state. -/
  last : State

/-- The course of a scan over at most `fuel` outcomes; `steps` holds those before, last one first. -/
def State.historyWithin (setting : Setting) (steps : List Step) : Nat → State → History
  | 0, s => ⟨steps.reverse, some (.tokenBudgetExceeded setting.options.fileLimit), s⟩
  | fuel + 1, s =>
    match s.nextOutcome setting with
    | (.ok (some outcome), s) =>
      historyWithin setting (⟨outcome, s.consumed, s.warnings.size, s.includes.toList⟩ :: steps)
        fuel s
    | (.ok none, s) => ⟨steps.reverse, none, s⟩
    | (.error failure, s) => ⟨steps.reverse, some failure, s⟩

/-- The whole course of a scan. -/
def State.history (setting : Setting) (s : State) : History :=
  s.historyWithin setting [] (Scan.rounds setting)

/-! ### Results -/

/-- What was extracted from a file. -/
structure Extraction where
  /-- The proofs in order. -/
  proofs : List Proof
  /-- Why proofs were dropped, in order. -/
  dropped : List DropReason
  /-- The warnings in order. -/
  warnings : List Warning
  /-- How many tokens were taken. -/
  consumed : Nat
  deriving DecidableEq

/-- The proof of an outcome. -/
def Outcome.proof? : Outcome → Option Proof
  | completed proof => some proof
  | dropped _ => none

/-- The reason of an outcome. -/
def Outcome.reason? : Outcome → Option DropReason
  | completed _ => none
  | dropped reason => some reason

/-- What a scan has extracted, unless the file was given up. -/
def History.extraction (history : History) : Except Failure Extraction :=
  match history.failure with
  | some failure => .error failure
  | none =>
    .ok
      { proofs := history.steps.filterMap fun step => step.outcome.proof?
        dropped := history.steps.filterMap fun step => step.outcome.reason?
        warnings := history.last.warnings.toList
        consumed := history.last.consumed }

/-- Extracts the proofs of a source that was read from a path. -/
def extract (setting : Setting) (source path : String) : Except Failure Extraction :=
  ((State.ofSource setting source path).history setting).extraction

/-- The setting for a source that stands alone. -/
def Setting.alone : Setting := ⟨.withoutIncludes, .empty⟩

/-- The path of a source that was not read from a file. -/
def unnamedPath : String := "input.tex"

/-- Extracts the proofs of a source that stands alone. -/
def extractProofs (source : String) : Except Failure (List Proof) :=
  (extract .alone source unnamedPath).map Extraction.proofs

/-- Extracts the proofs of a file on a disk, the files that it includes being on the disk too. -/
def extractFile (options : Options) (disk : Disk) (path : Path) : Except Failure Extraction :=
  match disk.read path with
  | .error fault => .error (.io fault.message)
  | .ok bytes => extract ⟨options, .onDisk disk []⟩ (Encoding.decodeSource bytes) path.text

/-! ### Bodies -/

/-- The state in which the body of a proof begins. -/
def State.openBody (s : State) : State := { s with proofDepth := 1, proofStart := s.consumed }

/-- Scans the body of a proof to its end, over at most `fuel` proofs that close. -/
def State.bodyWithin (setting : Setting) : Nat → State → Except Failure String
  | 0, _ => .error (.tokenBudgetExceeded setting.options.fileLimit)
  | fuel + 1, s =>
    match Scan.scan setting .file s with
    | .ok (.proofEnd _) s => bodyWithin setting fuel s.openBody
    | .ok _ s => .ok s.draft.render
    | .error (.drop _) _ => .ok ""
    | .error (.fatal failure) _ => .error failure

/-- The text of a source taken for the body of a proof. A proof that would be dropped has no text. -/
def renderBody (setting : Setting) (source path : String) : Except Failure String :=
  (State.ofSource setting source path).openBody.bodyWithin setting (Scan.rounds setting)

end ProofProse
