import ProofProse.Text.Blank
import ProofProse.Text.Search

/-! # Corrections of single files

A correction replaces a literal text in every file whose path contains a pattern. Corrections are
written as a table: one per line, with the pattern, the text to find and the replacement parted by
tabs. Blank lines and lines that start with a hash sign are passed over. -/

namespace ProofProse

/-- A replacement of literal text in some files. -/
structure Correction where
  /-- The files: those whose path contains this text. -/
  pattern : String
  /-- The text to find. -/
  find : String
  /-- The text to put in its place. -/
  replacement : String
  deriving DecidableEq

namespace Correction

/-- Whether the correction is meant for the file at `path`. -/
def appliesTo (correction : Correction) (path : String) : Bool :=
  Text.occursIn correction.pattern.toList path.toList

/-- Makes the replacement wherever the text is found; an empty text is never found. -/
def apply (correction : Correction) (cs : List Char) : List Char :=
  if correction.find.isEmpty then cs
  else Text.substituteAll correction.find.toList correction.replacement.toList cs

/-- Makes, in order, all corrections that are meant for the file. -/
def applyAll (corrections : List Correction) (path : String) (cs : List Char) : List Char :=
  (corrections.filter (·.appliesTo path)).foldl (fun text correction => correction.apply text) cs

/-- A line of a table that says nothing. -/
def isSilent (line : List Char) : Bool := line.all Text.isBlank || line.head? == some '#'

/-- The correction on a line, if the line has two tabs. -/
def ofLine? (line : List Char) : Option Correction := do
  let (pattern, rest) ← Text.cutAt '\t' line
  let (find, replacement) ← Text.cutAt '\t' rest
  return ⟨String.ofList pattern, String.ofList find, String.ofList replacement⟩

/-- Why a table cannot be read: the number of the first line that has too few fields. -/
structure TableFault where
  /-- The number of the line, from one. -/
  line : Nat
  deriving DecidableEq

/-- The wording of a fault. -/
def TableFault.message (fault : TableFault) : String :=
  "line " ++ toString fault.line ++ ": expected three tab-separated fields"

/-- Reads the lines of a table from number `n` on. -/
def ofLines (n : Nat) : List (List Char) → Except TableFault (List Correction)
  | [] => .ok []
  | line :: rest =>
    if isSilent line then ofLines (n + 1) rest
    else
      match ofLine? line with
      | none => .error ⟨n⟩
      | some correction => (ofLines (n + 1) rest).map (correction :: ·)

/-- Reads a table. -/
def parseTable (text : String) : Except TableFault (List Correction) :=
  ofLines 1 (Text.lines text.toList)

end Correction

end ProofProse
