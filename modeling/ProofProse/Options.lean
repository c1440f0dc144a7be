import ProofProse.Inclusion.Catalogue
import ProofProse.Source.Correction

/-! # Options

Limits are counted in tokens taken off the stream, those read twice included. -/

namespace ProofProse

/-- How a source is to be read. -/
structure Options where
  /-- How long mathematics may be. -/
  mathLimit : Nat := 20000
  /-- How long a skipped environment or a proof may be. -/
  environmentLimit : Nat := 1000000
  /-- How long a branch that is not taken may be. -/
  conditionalLimit : Nat := 1000000
  /-- How long a file may be, with all it includes. -/
  fileLimit : Nat := 20000000
  /-- How deep files may include one another. -/
  includeDepth : Nat := 5
  /-- How deep skipped spans may stand inside one another. -/
  skipDepth : Nat := 128
  /-- Whether included files are read. -/
  followIncludes : Bool := true
  /-- Files that are never read. -/
  catalogue : Catalogue := .standard
  /-- Corrections of single files. -/
  corrections : List Correction := []

namespace Options

/-- The options that are used when nothing is said. -/
def standard : Options := {}

/-- Narrow limits. -/
def strict : Options where
  mathLimit := 5000
  environmentLimit := 200000
  conditionalLimit := 200000
  fileLimit := 2000000
  skipDepth := 32

/-- No file is read but the one given. -/
def withoutIncludes : Options where
  followIncludes := false

end Options

end ProofProse
