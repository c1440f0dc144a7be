import ProofProse.Batch
import ProofProse.CommandLine.Arguments

/-! # The command line

The program extracts the proofs of the given inputs, and prints them or writes them to files.
`CommandLine.run` is what it does: from arguments and a disk to the text it prints, its exit code and
the disk it leaves. -/

namespace ProofProse.CommandLine

/-- What a run of the program comes to. -/
structure Result where
  /-- The exit code. -/
  code : Nat
  /-- What is printed. -/
  output : String := ""
  /-- What is printed for errors. -/
  errors : String := ""
  /-- The disk behind the run. -/
  disk : Disk

/-- The name and number of the version. -/
def versionText : String := "texproof 0.1.0"

/-- What is printed for arguments that make no sense. -/
def usageText : String := "usage"

/-- A run that ends with a message. -/
def stopped (disk : Disk) (code : Nat) (message : String) : Result where
  code := code
  errors := message ++ "\n"
  disk := disk

/-- Something that is loaded from a path if one is given. -/
def loadOptional {α : Type} (path? : Option Path) (default : α)
    (load : Path → Except String α) : Except String α :=
  match path? with
  | none => .ok default
  | some path => load path

/-- Reads a list of distributed files. -/
def loadCatalogue (disk : Disk) (path : Path) : Except String Catalogue :=
  match disk.readText path with
  | .ok text => .ok (.parse text)
  | .error fault => .error fault.message

/-- Reads a table of corrections. -/
def loadCorrections (disk : Disk) (path : Path) : Except String (List Correction) :=
  match disk.readText path with
  | .ok text =>
    match Correction.parseTable text with
    | .ok corrections => .ok corrections
    | .error fault => .error fault.message
  | .error fault => .error fault.message

/-- The options of a run. -/
def options (disk : Disk) (arguments : Arguments) : Except String Options := do
  let base : Options := if arguments.has .strict then .strict else .standard
  let catalogue ←
    loadOptional (arguments.path? .catalogue) base.catalogue (loadCatalogue disk)
  let corrections ←
    loadOptional (arguments.path? .corrections) base.corrections (loadCorrections disk)
  return { base with
    followIncludes := !arguments.has .noIncludes
    catalogue := catalogue
    corrections := corrections }

/-- How the inputs of a run are worked on. -/
def batchOptions (arguments : Arguments) : BatchOptions :=
  let base : BatchOptions := {}
  { inputRoot := (arguments.path? .inputRoot).getD base.inputRoot
    outputRoot := (arguments.path? .outputRoot).getD base.outputRoot
    jobs := if arguments.has .failFast then 1 else arguments.jobs.getD base.jobs
    skipExisting := arguments.has .skipExisting
    failFast := arguments.has .failFast
    summary := arguments.path? .summary }

/-- The inputs of a run. -/
def inputs (disk : Disk) (arguments : Arguments) : Except DiskFault (List Path) :=
  match arguments.path? .listFile with
  | some path => Batch.readList disk path
  | none => .ok (Batch.collect disk arguments.inputs)

/-! ### Printing proofs -/

/-- What the printing of some inputs comes to. -/
structure Printed where
  /-- The proofs, one to a line. -/
  output : String := ""
  /-- The inputs that were given up. -/
  errors : String := ""
  /-- Whether an input was given up. -/
  failed : Bool := false

/-- Prints the proofs of one more input. -/
def printInput (options : Options) (disk : Disk) (printed : Printed) (input : Path) : Printed :=
  match extractFile options disk input with
  | .ok extraction =>
    { printed with output := printed.output ++ Batch.proofLines extraction.proofs }
  | .error failure =>
    { printed with
      errors := printed.errors ++ "✗ " ++ input.text ++ ": " ++ failure.message ++ "\n"
      failed := true }

/-- Prints the proofs of all inputs. -/
def printAll (options : Options) (disk : Disk) (inputs : List Path) : Result :=
  let printed := inputs.foldl (printInput options disk) {}
  { code := if printed.failed then 1 else 0
    output := printed.output
    errors := printed.errors
    disk := disk }

/-! ### Writing results -/

/-- The line that sums up a batch. -/
def summaryLine (summary : Summary) : String :=
  toString (summary.count .succeeded) ++ " succeeded, " ++ toString (summary.count .failed) ++
    " failed, " ++ toString (summary.count .skipped) ++ " skipped; " ++ toString summary.proofs ++
    " proofs (" ++ toString summary.dropped ++ " dropped)"

/-- Writes the results of all inputs. -/
def writeAll (arguments : Arguments) (options : Options) (disk : Disk) (inputs : List Path) :
    Result :=
  match Batch.run (batchOptions arguments) options disk inputs with
  | (.ok summary, disk) => { code := 0, errors := summaryLine summary ++ "\n", disk := disk }
  | (.error failure, disk) => stopped disk 1 ("Error: " ++ failure.message)

/-! ### Runs -/

/-- A run with arguments that make sense. -/
def runWith (disk : Disk) (arguments : Arguments) : Result :=
  match options disk arguments with
  | .error message => stopped disk 2 ("Error: cannot load configuration: " ++ message)
  | .ok options =>
    match inputs disk arguments with
    | .error fault => stopped disk 2 ("Error: cannot read inputs: " ++ fault.message)
    | .ok [] => stopped disk 2 "Error: no input files"
    | .ok inputs =>
      if arguments.has .print then printAll options disk inputs
      else writeAll arguments options disk inputs

/-- A run of the program. -/
def run (disk : Disk) (arguments : List String) : Result :=
  match Arguments.read arguments with
  | .ok arguments => runWith disk arguments
  | .error .version => { code := 0, output := versionText ++ "\n", disk := disk }
  | .error .usage => { code := 2, errors := usageText, disk := disk }

end ProofProse.CommandLine
