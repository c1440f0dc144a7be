import ProofProse.Scan.Argument
import ProofProse.Scan.Condition
import ProofProse.Stream.Region

/-! # Conditionals

A conditional is closed by its own command, and only the branch that is taken is read. Bare tests are
decided without a look at what they test, and flags by their value. Other commands choose between two
arguments. -/

namespace ProofProse.Scan

variable (setting : Setting)

/-- Passes over a branch, up to its end. -/
def skipBranch (atElse : Bool) : Scan Unit := do
  let limit := setting.options.conditionalLimit
  match ← take fun s => readBranch limit s.dictionary.opensConditional atElse with
  | .found => pure ()
  | .tooLong => fail (.runawayConditional limit)
  | .ended => fail (.unexpectedEnd "conditional")

/-- Begins a conditional. If the test is true its first branch is read. -/
def beginConditional (truth : Bool) : Scan Unit :=
  if truth then pure () else skipBranch setting true

/-- A bare test. It holds if it is the test that always does, or asks for one command that is always
taken to be there. -/
def bareTest (name : String) : Scan Unit := do
  if name == "iftrue" then beginConditional setting true
  else if name == "ifdefined" then
    onStream Stream.skipSpaces
    let holds := (← peek).any (Token.isControl "hyperref")
    if holds then onStream (·.skip 1)
    beginConditional setting holds
  else beginConditional setting false

/-- Reads two arguments and puts the chosen one in front. -/
def choose (truth : Bool) : Scan Unit := do
  let yes ← argument
  let no ← argument
  pushBack (if truth then yes else no)

/-- Gives a flag a value, whether it was declared or not. A flag without a name is none. -/
def setFlag (flag : String) (value : Bool) : Scan Unit :=
  if flag.isEmpty then pure ()
  else onDictionary fun dictionary => ((dictionary.declareFlag flag).setFlag flag value).1

/-- Whether a name is defined, in the source or from the start. -/
def isKnown (dictionary : Dictionary) (name : String) : Bool :=
  !name.isEmpty && (dictionary.knows name || isBuiltin name)

/-- The name that an argument gives, as a text or as a control sequence. -/
def givenName? (byName : Bool) (tokens : List Token) : Option String :=
  if byName then some (plainText tokens) else firstControl? tokens

/-- A command that chooses between arguments or sets a flag. -/
def choice : ChoiceKind → Scan Unit
  | .ifThenElse => do
    let condition ← argument
    choose (Condition.evaluate (← get).dictionary condition)
  | .ifEqual => do
    onStream (·.skipChar '*')
    let left ← argumentText
    let right ← argumentText
    choose (left == right)
  | .ifEmpty => do
    let text ← argumentText
    choose text.isEmpty
  | .ifFlag => do
    let flag ← argumentText
    choose (((← get).dictionary.flag? flag).getD false)
  | .setFlagTo => do
    let flag ← argumentText
    let value ← argumentText
    setFlag flag (Text.sameIgnoringCase value "true")
  | .setFlag value => do
    let flag ← argumentText
    setFlag flag value
  | .ifDefined byName defined => do
    let name := givenName? byName (← argument)
    let found := name.any (isKnown (← get).dictionary)
    choose (found == defined)
  | .untested signature => do
    operands signature
    choose false

end ProofProse.Scan
