import ProofProse.Command.Accent
import ProofProse.Scan.Argument
import ProofProse.Stream.Region

/-! # Prose and proofs

What characters, gaps and commands add to the text of a proof, and how proofs open and close. -/

namespace ProofProse

/-- What ends a scan of some tokens, or lets it go on. -/
inductive Flow where
  /-- The scan goes on. -/
  | goOn
  /-- What the scan was to find has been found. -/
  | close
  /-- The document has ended. -/
  | endDocument
  /-- The outermost proof has ended; a proof without text is none. -/
  | proofEnd (proof : Option Proof)
  deriving DecidableEq

/-! ### States -/

namespace State

/-- Adds a character of prose, with the token behind it in view. A period at the end of a word is set
apart. A capital letter behind mathematics and a gap, with a small letter behind it, begins a
sentence, and the sentence before it is closed. -/
def addChar (s : State) (c : Char) : State :=
  if c == '.' then
    if s.stream.peek?.any Token.isAlphanumeric then s.emit (.char '.') else s.emit (.text " .")
  else if Text.isUppercase c && s.draft.endsInMathGap && s.stream.peek?.any Token.isSmallLetter then
    (s.emit (.text ". ")).emit (.char c)
  else s.emit (.char c)

/-- The state in which an outermost proof begins. -/
def beginProof (s : State) : State :=
  { s with draft := {}, finalPeriod := false, proofStart := s.consumed }

/-- Gives up the proof being read, and passes over the rest of it. -/
def abandonProof (s : State) : State :=
  let reading := readProofRest s.proofDepth s.stream.ahead
  { s with
    mathDepth := 0
    discardDepth := 0
    proofDepth := 0
    finalPeriod := false
    draft := {}
    stream := s.stream.behind reading
    includes := s.includes.leave reading.fileEnds }

end State

namespace Scan

/-! ### Text -/

/-- Adds a text that is not empty. -/
def emitText (text : String) : Scan Unit :=
  if text.isEmpty then pure () else emit (.text text)

/-- Reads a character. In mathematics it only tells whether the last thing visible is a period. -/
def character (c : Char) : Scan Unit := modify fun s =>
  if s.inMath then { s with finalPeriod := c == '.' }
  else if s.capturing then s.addChar c
  else s

/-- Mathematics that stands in prose. A proof in which it does is dropped. -/
def mathInProse (command : String) : Scan Unit := do
  if (← get).capturing then drop (.mathOutsideMath command)

/-- The letters that an accent stands on. -/
def accentBase (tokens : List Token) : String :=
  String.join (tokens.map fun
    | .char c => String.singleton c
    | .control name => (Accent.letter? name).getD ""
    | _ => "")

/-- Reads what an accent stands on. -/
def accented (mark : Char) : Scan Unit := do
  let base := accentBase (← argument)
  emitText (Accent.attach mark base)

/-! ### Proofs -/

/-- Opens a proof; its title is passed over. -/
def openProof : Scan Unit := do
  discard optionalArgument
  modify fun s =>
    let s := if s.proofDepth == 0 then s.beginProof else s
    { s with proofDepth := s.proofDepth + 1 }

/-- Closes a proof. Outside all proofs nothing is closed. -/
def closeProof : Scan Flow := fun s =>
  match s.proofDepth with
  | 0 => .ok .goOn s
  | 1 => .ok (.proofEnd s.draft.proof?) { s with proofDepth := 0, draft := {} }
  | depth + 1 => .ok .goOn { s with proofDepth := depth }

end Scan

end ProofProse
