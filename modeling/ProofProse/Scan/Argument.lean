import ProofProse.Scan.State
import ProofProse.Stream.Group
import ProofProse.Stream.Quantity

/-! # Arguments of commands

Arguments are read as they stand, without interpreting them. -/

namespace ProofProse.Scan

/-- What the reading of an argument means for the scan. -/
def finishArgument (context : String) : Argument → Scan (List Token)
  | .closed content => pure content
  | .runaway => drop .runawayArgument
  | .ended => endOfTokens context

/-- Reads to the brace that closes a group. -/
def balanced (context : String) : Scan (List Token) := do
  finishArgument context (← take fun s => readBalanced s.inProof)

/-- A token that is no argument: it closes or opens something that an argument cannot hold. -/
def isBoundary : Token → Bool
  | .closeGroup => true
  | .mathShift => true
  | .endOfInput => true
  | .control name => name == "begin" || name == "end"
  | _ => false

/-- Reads one argument: a group without its braces, or a single token. At a boundary the argument is
empty, and the boundary stays. -/
def argument : Scan (List Token) := do
  onStream Stream.skipSpaces
  match ← next with
  | none => endOfTokens "argument"
  | some .openGroup => balanced "argument"
  | some t =>
    if isBoundary t then
      pushBackOne t
      return []
    else return [t]

/-- The text of an argument. -/
def argumentText : Scan String := return plainText (← argument)

/-- Reads an argument in brackets, if there is one behind spaces. -/
def optionalArgument : Scan (Option (List Token)) := do
  match (← get).stream.pastSpaces? with
  | some (offset, .char '[') =>
    onStream (·.skip (offset + 1))
    let content ← finishArgument "optional argument" (← take fun s => readBracketed s.inProof)
    return some content
  | _ => return none

/-- Reads a number. -/
def number : Scan Unit := do
  let (stream, ofCounter) := (← get).stream.skipNumber
  onStream fun _ => stream
  if ofCounter then discard argument

/-- Reads one operand. -/
def operand : Operand → Scan Unit
  | .star => onStream (·.skipChar '*')
  | .optional => discard optionalArgument
  | .mandatory => discard argument
  | .dimension => onStream Stream.skipDimension
  | .number => number
  | .equals => onStream Stream.skipEquals

/-- Reads the operands of a command. -/
def operands (signature : Signature) : Scan Unit := signature.forM operand

end ProofProse.Scan
