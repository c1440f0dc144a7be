import ProofProse.Path

/-! # Folded paths

The target of an inclusion is looked for in the folder of the including file. In the folded path no
component stands for the folder itself, and one that stands for the folder above takes the name
before it away, if there is one. -/

namespace ProofProse.Path

/-- A folded path while it is built: its names and steps upwards, last one first. -/
structure Folded where
  /-- Whether the path starts at the top. -/
  rooted : Bool := false
  /-- The components behind the top, last one first. -/
  reversed : List Component := []
  deriving DecidableEq

/-- Goes one component further. -/
def Folded.step (folded : Folded) : Component → Folded
  | .root => ⟨true, []⟩
  | .current => folded
  | .parent =>
    match folded.reversed with
    | .name _ :: above => { folded with reversed := above }
    | reversed => { folded with reversed := .parent :: reversed }
  | .name s => { folded with reversed := .name s :: folded.reversed }

/-- How a component is written. -/
def Component.text : Component → String
  | root => ""
  | current => "."
  | parent => ".."
  | name s => s

/-- The path that has been built. -/
def Folded.path (folded : Folded) : Path :=
  ofParts folded.rooted (folded.reversed.reverse.map Component.text)

/-- Folds a path. -/
def fold (path : Path) : Path := (path.components.foldl Folded.step {}).path

/-- The folder that a file stands in. -/
def folder (path : Path) : Path := path.parent?.getD ⟨""⟩

/-- The path of a target that is named in the file `including`. A target that starts at the top
stays what it is. -/
def sibling (including target : Path) : Path :=
  if target.isRooted then target else (including.folder.join target).fold

end ProofProse.Path
