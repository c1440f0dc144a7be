import ProofProse.Scan.Command

/-! # The scan

A scan interprets one token after the other until it finds what its frame looks for. Mathematics and
skipped environments are scanned by a scan of their own inside it.

Before every token the limits are checked: that of the file, that of the frame, and that of the
proof. A scan takes at least one token in each round, so it ends within the limit of the file; this
bounds the recursion. -/

namespace ProofProse.Scan

variable (setting : Setting)

/-- The limit that has been passed, if any, in a frame that began at `start`. -/
def passedLimit? (frame : Frame) (start : Nat) (s : State) : Option Failure :=
  let options := setting.options
  if s.consumed > options.fileLimit then some (.tokenBudgetExceeded options.fileLimit)
  else
    match (frame.limit? options).filter (s.consumed - start > ·) with
    | some limit => some (frame.runaway limit)
    | none =>
      if s.inProof && s.consumed - s.proofStart > options.environmentLimit then
        some (.runawayEnvironment "proof" options.environmentLimit)
      else none

/-- The tokens have run out. -/
def endOfStream : Frame → Scan Flow
  | .file => return .endDocument
  | .environment name => fail (.unexpectedEnd ("environment '" ++ name ++ "'"))
  | _ => fail .unterminatedMath

variable (nested : Frame → Scan Flow)

/-- Opens mathematics with one sign or two. -/
def openDollars : Scan Flow := do
  if (← peek) = some .mathShift then
    onStream (·.skip 1)
    goingOn (skipMath setting nested .doubleDollar)
  else goingOn (skipMath setting nested .dollar)

/-- The sign for mathematics. -/
def mathShift : Frame → Scan Flow
  | .dollar => return .close
  | .doubleDollar => do
    if (← peek) = some .mathShift then onStream (·.skip 1)
    return .close
  | _ => openDollars setting nested

/-- A sign that is no character. In mathematics it is the last thing visible. -/
def clearPeriod : Scan Unit :=
  modify fun s => if s.inMath then { s with finalPeriod := false } else s

/-- The sign of a superscript or subscript. -/
def script (sign : Token) : Scan Unit := do
  if (← get).inMath then clearPeriod else mathInProse sign.text

/-- Interprets one token. -/
def interpret (frame : Frame) : Token → Scan Flow
  | .endOfInput => goingOn (modify (·.leaveFiles 1))
  | .mathShift => mathShift setting nested frame
  | .control name => command setting nested frame name
  | .char c => goingOn (character c)
  | .space => goingOn (emit .space)
  | .active _ => goingOn (emit .space)
  | .alignTab => goingOn do
    clearPeriod
    emit .space
  | .superscript => goingOn (script .superscript)
  | .subscript => goingOn (script .subscript)
  | .openGroup => return .goOn
  | .closeGroup => return .goOn
  | .parameter _ => return .goOn
  | .deferred _ => return .goOn
  | .inert _ => return .goOn

/-- Takes one token and interprets it. -/
def round (frame : Frame) : Scan Flow := do
  match ← next with
  | none => endOfStream frame
  | some t => interpret setting nested frame t

/-- Scans in a frame that began at `start`, for at most `fuel` rounds. -/
def within : Nat → Frame → Nat → Scan Flow
  | 0, _, _ => fail (.tokenBudgetExceeded setting.options.fileLimit)
  | fuel + 1, frame, start => fun s =>
    match passedLimit? setting frame start s with
    | some failure => .error (.fatal failure) s
    | none =>
      match round setting (fun inner s => within fuel inner s.consumed s) frame s with
      | .ok .goOn s => within fuel frame start s
      | result => result

/-- Rounds enough for any scan: each takes a token, and when more tokens have been taken than a file
may have the scan ends. -/
def rounds : Nat := setting.options.fileLimit + 2

/-- Scans in a frame. -/
def scan (frame : Frame) : Scan Flow := fun s =>
  within setting (rounds setting) frame s.consumed s

end ProofProse.Scan
