import ProofProse.Path
import ProofProse.Text.Letter

/-! # Arguments of the command line

Options have a long name, behind two hyphens, and some have a letter, behind one. An option with a
value takes it from behind an equals sign, from the rest of a word of letters, or from the next
argument, which must not look like an option. Each option may stand once. Everything behind two bare
hyphens is an input. -/

namespace ProofProse.CommandLine

/-- Options without a value. -/
inductive Switch where
  /-- Inputs with a result are passed over. -/
  | skipExisting
  /-- The first failure ends the run. -/
  | failFast
  /-- Proofs are printed. -/
  | print
  /-- No included file is read. -/
  | noIncludes
  /-- The limits are narrow. -/
  | strict
  /-- More is logged. -/
  | verbose
  /-- Everything is logged. -/
  | debug
  deriving DecidableEq

/-- Options with a value. -/
inductive Valued where
  /-- The file that lists the inputs. -/
  | listFile
  /-- The folder of inputs. -/
  | inputRoot
  /-- The folder for results. -/
  | outputRoot
  /-- How many inputs may be worked on at a time. -/
  | jobs
  /-- Where a summary is written. -/
  | summary
  /-- The list of distributed files. -/
  | catalogue
  /-- The table of corrections. -/
  | corrections
  deriving DecidableEq

/-- What a name on the command line stands for. -/
inductive OptionName where
  /-- An option without a value. -/
  | switch (switch : Switch)
  /-- An option with a value. -/
  | valued (valued : Valued)
  /-- The version is asked for. -/
  | version
  deriving DecidableEq

/-- The long names. -/
def longNames : List (String × OptionName) :=
  [("matches", .valued .listFile), ("input-root", .valued .inputRoot),
   ("output-root", .valued .outputRoot), ("jobs", .valued .jobs),
   ("skip-existing", .switch .skipExisting), ("fail-fast", .switch .failFast),
   ("print", .switch .print), ("summary", .valued .summary), ("stdlib", .valued .catalogue),
   ("fixups", .valued .corrections), ("no-includes", .switch .noIncludes),
   ("strict", .switch .strict), ("verbose", .switch .verbose), ("debug", .switch .debug),
   ("version", .version)]

/-- The letters. -/
def letters : List (Char × OptionName) :=
  [('m', .valued .listFile), ('j', .valued .jobs), ('p', .switch .print), ('v', .switch .verbose),
   ('V', .version)]

/-- The arguments as they were given. -/
structure Arguments where
  /-- The options without a value. -/
  switches : List Switch := []
  /-- The options with a value that name a path. -/
  paths : List (Valued × Path) := []
  /-- How many inputs may be worked on at a time. -/
  jobs : Option Nat := none
  /-- The inputs, last one first. -/
  reversedInputs : List Path := []
  deriving DecidableEq

/-- Why arguments are not carried out. -/
inductive Stop where
  /-- They make no sense. -/
  | usage
  /-- The version was asked for. -/
  | version
  deriving DecidableEq

namespace Arguments

/-- The inputs in order. -/
def inputs (arguments : Arguments) : List Path := arguments.reversedInputs.reverse

/-- Whether an option without a value is given. -/
def has (arguments : Arguments) (switch : Switch) : Bool := arguments.switches.contains switch

/-- The path that an option gives. -/
def path? (arguments : Arguments) (valued : Valued) : Option Path := arguments.paths.lookup valued

/-- A path that is given; it is never empty. -/
def givenPath (value : String) : Except Stop Path :=
  if value.isEmpty then .error .usage else .ok ⟨value⟩

/-- Adds an input. -/
def addInput (arguments : Arguments) (value : String) : Except Stop Arguments := do
  let path ← givenPath value
  return { arguments with reversedInputs := path :: arguments.reversedInputs }

/-- Adds an option without a value. -/
def addSwitch (arguments : Arguments) (switch : Switch) : Except Stop Arguments :=
  if arguments.has switch then .error .usage
  else .ok { arguments with switches := switch :: arguments.switches }

/-- Adds an option with its value. -/
def addValued (arguments : Arguments) (valued : Valued) (value : String) :
    Except Stop Arguments := do
  if valued = .jobs then
    match arguments.jobs, Text.parseNat? value with
    | none, some n => return { arguments with jobs := some n }
    | _, _ => throw .usage
  else
    let path ← givenPath value
    if (arguments.path? valued).isSome then throw .usage
    return { arguments with paths := (valued, path) :: arguments.paths }

/-- Whether an argument looks like an option. A single hyphen does not. -/
def looksLikeOption (argument : String) : Bool :=
  match argument.toList with
  | '-' :: _ :: _ => true
  | _ => false

/-- What one argument leaves to be done. -/
inductive Pending where
  /-- Nothing. -/
  | none
  /-- The next argument is the value of an option. -/
  | value (valued : Valued)
  deriving DecidableEq

/-- Reads an option by its long name, with the value behind an equals sign if there is one. -/
def readLong (arguments : Arguments) (name : String) (value? : Option String) :
    Except Stop (Arguments × Pending) :=
  match longNames.lookup name, value? with
  | some (.switch switch), .none => return (← arguments.addSwitch switch, .none)
  | some (.valued valued), some value => return (← arguments.addValued valued value, .none)
  | some (.valued valued), .none => return (arguments, .value valued)
  | some .version, .none => throw .version
  | _, _ => throw .usage

/-- A value behind a letter, without the equals sign before it. -/
def attachedValue : List Char → String
  | '=' :: cs => String.ofList cs
  | cs => String.ofList cs

/-- Reads a word of letters. -/
def readLetters (arguments : Arguments) : List Char → Except Stop (Arguments × Pending)
  | [] => return (arguments, .none)
  | c :: cs =>
    match letters.lookup c with
    | some (.switch switch) => do readLetters (← arguments.addSwitch switch) cs
    | some (.valued valued) =>
      if cs.isEmpty then return (arguments, .value valued)
      else return (← arguments.addValued valued (attachedValue cs), .none)
    | some .version => throw .version
    | none => throw .usage

/-- Reads one argument that is not a value. -/
def readOne (arguments : Arguments) (argument : String) : Except Stop (Arguments × Pending) :=
  match argument.toList with
  | '-' :: '-' :: cs =>
    match Text.cutAt '=' cs with
    | some (name, value) =>
      readLong arguments (String.ofList name) (some (String.ofList value))
    | none => readLong arguments (String.ofList cs) .none
  | '-' :: c :: cs => readLetters arguments (c :: cs)
  | _ => return (← arguments.addInput argument, .none)

/-- Reads the arguments from left to right. -/
def readFrom (arguments : Arguments) (pending : Pending) : List String → Except Stop Arguments
  | [] =>
    match pending with
    | .none => .ok arguments
    | .value _ => .error .usage
  | argument :: rest =>
    match pending with
    | .value valued =>
      if looksLikeOption argument then .error .usage
      else do readFrom (← arguments.addValued valued argument) .none rest
    | .none =>
      if argument == "--" then rest.foldlM addInput arguments
      else do
        let (arguments, pending) ← readOne arguments argument
        readFrom arguments pending rest

/-- Inputs may be listed in a file or given, but not both. -/
def check (arguments : Arguments) : Except Stop Arguments :=
  if (arguments.path? .listFile).isSome && !arguments.inputs.isEmpty then .error .usage
  else .ok arguments

/-- Reads the arguments of the command line. -/
def read (arguments : List String) : Except Stop Arguments := do
  check (← readFrom {} .none arguments)

end Arguments

end ProofProse.CommandLine
