import ProofProse.Scan.Choice
import ProofProse.Scan.Declaration
import ProofProse.Scan.Expansion
import ProofProse.Scan.Inclusion
import ProofProse.Scan.Span

/-! # Commands

A command is looked up in this order: what closes the frame, structural commands, definitions of the
source, flags, bare tests, and commands with an effect of their own. A command that is none of these
does nothing. -/

namespace ProofProse.Scan

variable (setting : Setting) (nested : Frame → Scan Flow)

/-- A computation after which the scan goes on. -/
def goingOn (body : Scan Unit) : Scan Flow := do
  body
  return .goOn

/-! ### Environments -/

/-- The command that opens or closes an environment. -/
def environmentTokens (command name : String) : List Token :=
  [.control command, .openGroup] ++ charTokens name ++ [.closeGroup]

/-- The document ends. It may not end inside anything. -/
def endDocument (frame : Frame) : Scan Flow :=
  if frame = .file then return .endDocument
  else fail (.unexpectedEnd "\\end\x7bdocument\x7d inside math or an environment")

/-- Opens an environment by its class. -/
def openByClass (name : String) : EnvironmentClass → Scan Unit
  | .proof => openProof
  | .math => skipMath setting nested (.environment name)
  | .discarded => skipDiscarded setting nested name
  | .verbatim => skipVerbatim setting name
  | .transparent signature => operands signature

/-- Opens an environment. A proof that opens inside a span shows that the span was never closed; the
span ends before it. -/
def openEnvironment : Scan Flow := do
  let name ← argumentText
  if name.isEmpty then return .goOn
  let s ← get
  if isProofName name then
    if s.inSpan then
      pushBack (environmentTokens "begin" name)
      return .close
    else goingOn openProof
  else
    match s.dictionary.environment? name with
    | some environment => goingOn (expand name environment.opening)
    | none => goingOn (openByClass setting nested name (.ofName name))

/-- Closes an environment. A proof that closes inside a span shows that the span was never closed; the
span ends before it. -/
def closeEnvironment (frame : Frame) : Scan Flow := do
  let name ← argumentText
  if frame = .environment name then return .close
  let s ← get
  if isProofName name then
    if s.inSpan then
      pushBack (environmentTokens "end" name)
      return .close
    else closeProof
  else if name == "document" then endDocument frame
  else
    match s.dictionary.environment? name with
    | some environment => goingOn (pushBack environment.closing)
    | none => return .goOn

/-! ### Structural commands -/

/-- A command that opens or closes a proof. Inside a span the span ends before it. -/
def proofBoundary (name : String) (boundary : Scan Flow) : Scan Flow := do
  if (← get).inSpan then
    pushBackOne (.control name)
    return .close
  else boundary

/-- A structural command. -/
def structural (name : String) (frame : Frame) : Structural → Scan Flow
  | .openEnvironment => openEnvironment setting nested
  | .closeEnvironment => closeEnvironment frame
  | .openInline => goingOn (skipMath setting nested .inline)
  | .openDisplay => goingOn (skipMath setting nested .display)
  | .endBranch => goingOn (skipBranch setting false)
  | .openProof => proofBoundary name (goingOn openProof)
  | .closeProof => proofBoundary name closeProof
  | .endDocument => endDocument frame
  | .endFile => goingOn (take fun _ => readFileRest)
  | .verbatim => goingOn (take fun _ => readInlineVerbatim)
  | .makeName => goingOn (take fun _ => readMadeName)
  | .takeToken => goingOn (discard next)
  | .openCode => goingOn (take fun _ => readCode codeEnd)
  | .nothing => return .goOn

/-! ### Other commands -/

/-- A command with an effect of its own. -/
def applyEffect (name : String) : Effect → Scan Unit
  | .silent signature => operands signature
  | .placeholder kind signature => do
    operands signature
    emit (.placeholder kind)
  | .literal text => emit (.text text)
  | .gap signature => do
    operands signature
    emit .space
  | .accent mark => accented mark
  | .definition kind => declaration kind
  | .choice kind => choice kind
  | .inclusion kind => inclusion setting kind
  | .mathText => do
    if (← get).inMath then textInMath
  | .mathOnly => do
    if !(← get).inMath then mathInProse name

/-- A command that is not structural. -/
def plainCommand (name : String) : Scan Unit := do
  let dictionary := (← get).dictionary
  match dictionary.find? name with
  | some definition => expand name definition
  | none =>
    match dictionary.flagSetting? name with
    | some (flag, value) => onDictionary fun dictionary => (dictionary.setFlag flag value).1
    | none =>
      match dictionary.testedFlag? name with
      | some flag => beginConditional setting ((dictionary.flag? flag).getD false)
      | none =>
        if isBareTest name then bareTest setting name
        else
          match Effect.ofName? name with
          | some effect => applyEffect setting name effect
          | none => pure ()

/-- A command. -/
def command (frame : Frame) (name : String) : Scan Flow :=
  if frame.closedBy name then return .close
  else
    match Structural.ofName? name with
    | some kind => structural setting nested name frame kind
    | none => goingOn (plainCommand setting name)

end ProofProse.Scan
