import ProofProse.Scan.Argument
import ProofProse.Stream.ParameterText
import ProofProse.Text.Letter

/-! # Definitions in sources

The commands by which a source defines names, environments and flags. -/

namespace ProofProse.Scan

/-- Defines a name; a definition that is refused is warned of. -/
def define (name : String) (definition : Definition) : Scan Unit := do
  match (← get).dictionary.define name definition with
  | .ok dictionary => onDictionary fun _ => dictionary
  | .error reason => warn (.definitionRejected name reason)

/-- The greatest number of parameters. -/
def maxArity : Nat := 9

/-- Reads the number of parameters, which is zero when none is given. -/
def arity : Scan Nat := do
  let text := (← optionalArgument).map plainText
  return min ((text.bind Text.parseNat?).getD 0) maxArity

/-- Defines a command with a number of parameters; with `unlessKnown` a name that is known stays
what it is. -/
def defineCommand (unlessKnown : Bool) : Scan Unit := do
  onStream (·.skipChar '*')
  let target ← argument
  let n ← arity
  let fallback ← optionalArgument
  let body ← argument
  match firstControl? target with
  | none => pure ()
  | some name =>
    if unlessKnown && (← get).dictionary.knows name then pure ()
    else define name (.ofOptional n fallback body)

/-- Reads a parameter text and a body, and defines the name if there is one. -/
def defineWithText (name? : Option String) : Scan Unit := do
  match ← take fun _ => readParameterText with
  | .lost => pure ()
  | .ended => endOfTokens "definition"
  | .found lead delimiters =>
    let body ← balanced "definition"
    match name? with
    | none => pure ()
    | some name => define name { lead := lead, delimiters := delimiters, body := body }

/-- Defines a command with a parameter text. What is not a name is left alone, but a definition of an
active character is read. -/
def defineByText : Scan Unit := do
  match ← next with
  | none => endOfTokens "definition"
  | some (.control name) => defineWithText (some name)
  | some (.active _) => defineWithText none
  | some t => pushBackOne t

/-- Reads an equals sign behind spaces, and one space behind it. -/
def skipCopySign (s : Stream) : Stream :=
  let s := s.skipSpaces
  match s.ahead with
  | .char '=' :: _ => (s.skip 1).skipOneSpace
  | _ => s

/-- Gives a name the meaning of another. The definition of the other is copied; a command with a
meaning of its own is renamed; any other name is called by the new one. -/
def copyName (new old : String) : Scan Unit := do
  let dictionary := (← get).dictionary
  match dictionary.find? old with
  | some definition => define new definition
  | none =>
    if isBuiltin old then
      match dictionary.renameBuiltin new old with
      | .ok dictionary => onDictionary fun _ => dictionary
      | .error reason => warn (.definitionRejected new reason)
    else if new == old then pure ()
    else define new (.alias [.control old])

/-- Gives a name the meaning of a token. -/
def copy : Scan Unit := do
  let some new ← next | endOfTokens "\\let"
  onStream skipCopySign
  let some target ← next | endOfTokens "\\let"
  match new, target with
  | .control new, .control old => copyName new old
  | .control new, t => define new (.alias [t])
  | _, _ => pure ()

/-- Defines an environment. Environments of proofs keep their meaning. -/
def defineEnvironment (unlessKnown : Bool) : Scan Unit := do
  onStream (·.skipChar '*')
  let name ← argumentText
  let n ← arity
  let fallback ← optionalArgument
  let opening ← argument
  let closing ← argument
  if name.isEmpty then pure ()
  else if isProofName name then warn (.proofRedefinitionIgnored name)
  else if unlessKnown && (← get).dictionary.hasEnvironment name then pure ()
  else
    onDictionary (·.defineEnvironment name ⟨.ofOptional n fallback opening, closing⟩)

/-- Declares the flag of a test. -/
def declareTest : Scan Unit := do
  match ← next with
  | some (.control name) =>
    match Text.dropHead? "if" name with
    | some flag => if flag.isEmpty then pure () else onDictionary (·.declareFlag flag)
    | none => pure ()
  | _ => pure ()

/-- Declares a flag. -/
def declareFlag : Scan Unit := do
  let flag ← argumentText
  if flag.isEmpty then pure () else onDictionary (·.declareFlag flag)

/-- Defines the name of a mathematical operator. -/
def defineOperator : Scan Unit := do
  onStream (·.skipChar '*')
  let target ← argument
  let text ← argument
  match firstControl? target with
  | none => pure ()
  | some name =>
    define name (.simple 0 ([.control "operatorname", .openGroup] ++ text ++ [.closeGroup]))

/-- Defines a pair of delimiters around an argument. -/
def defineDelimiters : Scan Unit := do
  let target ← argument
  let left ← argument
  let right ← argument
  match firstControl? target with
  | none => pure ()
  | some name =>
    define name
      (.simple 1 ([.control "left"] ++ left ++ [.parameter 1, .control "right"] ++ right))

/-- A command that defines something. -/
def declaration : DefinitionKind → Scan Unit
  | .newCommand => defineCommand false
  | .provideCommand => defineCommand true
  | .parameterText => defineByText
  | .copy => copy
  | .newEnvironment => defineEnvironment false
  | .provideEnvironment => defineEnvironment true
  | .newTest => declareTest
  | .newFlag => declareFlag
  | .mathOperator => defineOperator
  | .pairedDelimiter => defineDelimiters

end ProofProse.Scan
