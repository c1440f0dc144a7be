import ProofProse.Failure
import ProofProse.Inclusion.Library
import ProofProse.Options
import ProofProse.Prose
import ProofProse.Stream
import ProofProse.Warning

/-! # The state of a scan

A scan reads the tokens of a file and of the files it includes. Its state is the stream, what has
been defined, the files being read, how deep the scan is in mathematics, skipped environments and
proofs, and the proof being collected. A computation of `Scan` changes the state, and can be
interrupted; the state reached is kept. -/

namespace ProofProse

/-! ### Included files -/

/-- The files being read: the main file, and the files included inside one another. -/
structure Includes where
  /-- The file that the scan began with. -/
  main : String
  /-- The included files, innermost first. -/
  inner : List String := []
  deriving DecidableEq

namespace Includes

/-- The paths from the outermost to the innermost file. -/
def toList (includes : Includes) : List String := includes.main :: includes.inner.reverse

/-- The file being read. -/
def current (includes : Includes) : String := includes.inner.headD includes.main

/-- How deep the file being read is included. -/
def depth (includes : Includes) : Nat := includes.inner.length

/-- A file is included. -/
def enter (includes : Includes) (path : String) : Includes :=
  { includes with inner := path :: includes.inner }

/-- Some files end. The main file stays. -/
def leave (includes : Includes) (n : Nat) : Includes :=
  { includes with inner := includes.inner.drop n }

end Includes

/-! ### States -/

/-- Where a scan stands. -/
structure State where
  /-- The tokens to read. -/
  stream : Stream
  /-- What has been defined. -/
  dictionary : Dictionary := {}
  /-- The files being read. -/
  includes : Includes
  /-- How many spans of mathematics are open. -/
  mathDepth : Nat := 0
  /-- How many skipped environments are open. -/
  discardDepth : Nat := 0
  /-- How many proofs are open. -/
  proofDepth : Nat := 0
  /-- Whether what was last visible in mathematics is a period. -/
  finalPeriod : Bool := false
  /-- The text of the proof so far. -/
  draft : Draft := {}
  /-- Where in the stream the outermost proof was opened. -/
  proofStart : Nat := 0
  /-- The warnings so far. -/
  warnings : Array Warning := #[]

namespace State

/-- Inside mathematics. -/
def inMath (s : State) : Bool := 0 < s.mathDepth

/-- Inside a proof. -/
def inProof (s : State) : Bool := 0 < s.proofDepth

/-- Inside mathematics or a skipped environment. -/
def inSpan (s : State) : Bool := 0 < s.mathDepth || 0 < s.discardDepth

/-- Whether text is kept: inside a proof, and outside mathematics and skipped environments. -/
def capturing (s : State) : Bool := s.inProof && !s.inSpan

/-- How many tokens have been taken. -/
def consumed (s : State) : Nat := s.stream.consumed

/-- The state when a file with these tokens is begun. -/
def start (path : String) (tokens : List Token) : State where
  stream := .ofList tokens
  includes := ⟨path, []⟩

/-- Adds a piece of text, if text is kept. -/
def emit (s : State) (fragment : Fragment) : State :=
  if s.capturing then { s with draft := s.draft.push fragment } else s

/-- Adds a warning. -/
def warn (s : State) (warning : Warning) : State :=
  { s with warnings := s.warnings.push warning }

/-- Some included files end. -/
def leaveFiles (s : State) (n : Nat) : State := { s with includes := s.includes.leave n }

/-- What happens when the tokens run out in the middle of something: inside a proof the proof is
dropped, elsewhere the file is given up. -/
def endInterrupt (s : State) (context : String) : Interrupt :=
  if s.inProof then .drop .endOfInput else .fatal (.unexpectedEnd context)

end State

/-! ### Computations -/

/-- What does not change during a scan. -/
structure Setting where
  /-- The options. -/
  options : Options
  /-- Where included files come from. -/
  library : Library

/-- A computation with a state that can be interrupted. -/
abbrev Scan (α : Type) := EStateM Interrupt State α

namespace Scan

/-- Gives up the file. -/
def fail {α : Type} (failure : Failure) : Scan α := throw (.fatal failure)

/-- Gives up the proof. -/
def drop {α : Type} (reason : DropReason) : Scan α := throw (.drop reason)

/-- The tokens ran out in the middle of something. -/
def endOfTokens {α : Type} (context : String) : Scan α := fun s => .error (s.endInterrupt context) s

/-- Does something to the stream. -/
def onStream (f : Stream → Stream) : Scan Unit := modify fun s => { s with stream := f s.stream }

/-- Takes the next token. -/
def next : Scan (Option Token) := fun s =>
  match s.stream.next? with
  | none => .ok none s
  | some (t, stream) => .ok (some t) { s with stream := stream }

/-- The next token, which stays where it is. -/
def peek : Scan (Option Token) := fun s => .ok s.stream.peek? s

/-- Puts tokens in front. -/
def pushBack (tokens : List Token) : Scan Unit := onStream (·.pushBack tokens)

/-- Puts one token in front. -/
def pushBackOne (token : Token) : Scan Unit := onStream (·.pushBackOne token)

/-- Takes a stretch of tokens. Included files that end in it are left. -/
def take {α : Type} (read : State → List Token → Reading α) : Scan α := fun s =>
  let reading := read s s.stream.ahead
  .ok reading.result
    { s with stream := s.stream.behind reading, includes := s.includes.leave reading.fileEnds }

/-- Adds a warning. -/
def warn (warning : Warning) : Scan Unit := modify (·.warn warning)

/-- Adds a piece of text. -/
def emit (fragment : Fragment) : Scan Unit := modify (·.emit fragment)

/-- Changes the dictionary. -/
def onDictionary (f : Dictionary → Dictionary) : Scan Unit :=
  modify fun s => { s with dictionary := f s.dictionary }

/-- A computation, and a change of the state behind it whether it is interrupted or not. -/
def andAlways {α : Type} (body : Scan α) (leave : State → State) : Scan α := fun s =>
  match body s with
  | .ok a s => .ok a (leave s)
  | .error interrupt s => .error interrupt (leave s)

end Scan

end ProofProse
