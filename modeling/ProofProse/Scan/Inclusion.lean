import ProofProse.Inclusion.Library
import ProofProse.Scan.Argument
import ProofProse.Source

/-! # Included files

An included file is read in place of the command that names it: its tokens are put in front of the
stream, with a mark behind them where the file ends. Files of the catalogue are never read, and
files may include one another to a limited depth only. -/

namespace ProofProse.Scan

variable (setting : Setting)

/-- A file that was found. -/
structure Found where
  /-- Its path. -/
  path : String
  /-- Its tokens, with the mark of its end. -/
  tokens : List Token

/-- The first file to be had among some file names, named in the file `including`. A file that is
there but cannot be read ends the search with a warning; when no file is there, there is a warning
for the target. -/
def search (target including : String) : List String → Except Warning Found
  | [] => .error (.includeMissing target including)
  | candidate :: candidates =>
    let path := setting.library.resolve including candidate
    match setting.library.read path with
    | .ok bytes =>
      let text := Encoding.decodeSource bytes
      .ok ⟨path, Source.tokens text path setting.options.corrections ++ [.endOfInput]⟩
    | .error (.notFound _) => search target including candidates
    | .error fault => .error (.includeUnreadable path fault.message)

/-- Whether a target is not even looked for. -/
def passesOver (target : String) : Bool :=
  target.isEmpty || !setting.options.followIncludes || setting.options.catalogue.knows target

/-- Finds the file that a target names, if it is to be read and can be. -/
def load (kind : InclusionKind) (target : String) : Scan (Option Found) := do
  if passesOver setting target then return none
  let includes := (← get).includes
  if includes.depth ≥ setting.options.includeDepth then
    warn (.includeDepthExceeded target includes.depth)
    return none
  match search setting target includes.current (Inclusion.candidates kind target) with
  | .ok found => return some found
  | .error warning =>
    warn warning
    return none

/-- Puts the tokens of a file in front. -/
def splice (found : Found) : Scan Unit := do
  pushBack found.tokens
  modify fun s => { s with includes := s.includes.enter found.path }

/-- The command that names some packages; there is none when none are left. -/
def packageCommand (names : List String) : List Token :=
  if names.isEmpty then []
  else
    [.control "usepackage", .openGroup] ++ charTokens (String.intercalate "," names) ++ [.closeGroup]

/-- Reads packages from left to right. The packages behind one that is read are named again behind
its end, so that they are looked for from the file that names them. -/
def followPackages : List String → Scan Unit
  | [] => pure ()
  | name :: names => do
    match ← load setting .package name with
    | some found => splice { found with tokens := found.tokens ++ packageCommand names }
    | none => followPackages names

/-- A character. -/
def isCharToken : Token → Bool
  | .char _ => true
  | _ => false

/-- Reads the target of an inclusion: an argument in braces, or the characters up to a gap. -/
def inputTarget : Scan String := do
  onStream Stream.skipSpaces
  match ← peek with
  | some .openGroup => argumentText
  | _ =>
    let letters := (← get).stream.ahead.takeWhile isCharToken
    onStream (·.skipWhile isCharToken)
    return printed letters

/-- A command that names files. -/
def inclusion : InclusionKind → Scan Unit
  | .documentClass => do
    operands [.optional, .mandatory]
    discard optionalArgument
  | .package => do
    discard optionalArgument
    let names ← argumentText
    discard optionalArgument
    followPackages setting ((Text.split ',' names).map Text.trim)
  | .input => do
    let target ← inputTarget
    match ← load setting .input target with
    | some found => splice found
    | none => pure ()

end ProofProse.Scan
