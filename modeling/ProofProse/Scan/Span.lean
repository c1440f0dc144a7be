import ProofProse.Scan.Prose

/-! # Skipped spans

Mathematics and some environments are read for what they define, and nothing of them is kept. Each is
scanned in a frame of its own, up to what closes it. Verbatim environments are passed over as they
stand. -/

namespace ProofProse

/-- What a scan looks for. -/
inductive Frame where
  /-- The end of the file or document. -/
  | file
  /-- The sign that closes mathematics in a line. -/
  | dollar
  /-- The doubled sign that closes displayed mathematics. -/
  | doubleDollar
  /-- The command that closes mathematics in a line. -/
  | inline
  /-- The command that closes displayed mathematics. -/
  | display
  /-- The end of an environment. -/
  | environment (name : String)
  deriving DecidableEq

namespace Frame

/-- How many tokens may be taken in a frame. -/
def limit? (options : Options) : Frame → Option Nat
  | file => none
  | environment _ => some options.environmentLimit
  | _ => some options.mathLimit

/-- The failure when a frame is longer than it may be. -/
def runaway (limit : Nat) : Frame → Failure
  | environment name => .runawayEnvironment name limit
  | _ => .runawayMath limit

/-- Whether a command closes a frame of mathematics. -/
def closedBy (name : String) : Frame → Bool
  | inline => name == ")"
  | display => name == "]"
  | _ => false

end Frame

namespace State

/-- Opens mathematics. -/
def enterMath (s : State) : State :=
  { s with
    finalPeriod := if s.mathDepth == 0 then false else s.finalPeriod
    mathDepth := s.mathDepth + 1 }

/-- Closes mathematics. -/
def leaveMath (s : State) : State := { s with mathDepth := s.mathDepth - 1 }

/-- Opens a skipped environment. -/
def enterDiscarded (s : State) : State := { s with discardDepth := s.discardDepth + 1 }

/-- Closes a skipped environment. -/
def leaveDiscarded (s : State) : State := { s with discardDepth := s.discardDepth - 1 }

/-- Adds a placeholder for mathematics, and the period that it ended with. -/
def markMath (s : State) : State :=
  let marked := s.emit (.placeholder .math)
  if s.finalPeriod then marked.emit (.text " .") else marked

end State

namespace Scan

variable (setting : Setting)

/-- Whether one more span may be opened. -/
def checkDepth : Scan Unit := do
  let limit := setting.options.skipDepth
  let s ← get
  if s.mathDepth + s.discardDepth ≥ limit then fail (.nestingTooDeep limit)

/-- Skips mathematics; `nested` scans to the end of a frame. -/
def skipMath (nested : Frame → Scan Flow) (frame : Frame) : Scan Unit := do
  checkDepth setting
  modify (·.enterMath)
  discard (andAlways (nested frame) (·.leaveMath))
  modify (·.markMath)

/-- Skips an environment without a trace. -/
def skipDiscarded (nested : Frame → Scan Flow) (name : String) : Scan Unit := do
  checkDepth setting
  modify (·.enterDiscarded)
  discard (andAlways (nested (.environment name)) (·.leaveDiscarded))

/-- Passes over a verbatim environment. -/
def skipVerbatim (name : String) : Scan Unit := do
  let limit := setting.options.environmentLimit
  match ← take fun _ => readVerbatim limit name with
  | .found => pure ()
  | .tooLong => fail (.runawayEnvironment name limit)
  | .ended => fail (.unexpectedEnd ("environment '" ++ name ++ "'"))

/-- A token that shows nothing by itself. -/
def isInvisible : Token → Bool
  | .space => true
  | .openGroup => true
  | .closeGroup => true
  | .control _ => true
  | .inert _ => true
  | _ => false

/-- Reads text inside mathematics. The last thing visible in it tells whether it ends a sentence. -/
def textInMath : Scan Unit := do
  let content ← argument
  match content.reverse.find? (!isInvisible ·) with
  | some t => modify fun s => { s with finalPeriod := t.isChar '.' }
  | none => pure ()

end Scan

end ProofProse
