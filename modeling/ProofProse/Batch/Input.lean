import ProofProse.Disk
import ProofProse.Text.Blank
import ProofProse.Text.Search

/-! # Inputs of batches

The inputs of a batch are listed in a file, or given as files and folders. A folder stands for all
sources below it. Inputs that were given are put in the order of paths, each once. -/

namespace ProofProse.Batch

/-- The path on a line of a list; blank lines and lines that start with a hash sign hold none. -/
def pathOfLine? (line : List Char) : Option Path :=
  match Text.trimBy Text.isBlank line with
  | [] => none
  | '#' :: _ => none
  | cs => some ⟨String.ofList cs⟩

/-- The paths of a list, in the order of its lines. -/
def parseList (text : String) : List Path := (Text.lines text.toList).filterMap pathOfLine?

/-- Reads a list of inputs. -/
def readList (disk : Disk) (path : Path) : Except DiskFault (List Path) :=
  (disk.readText path).map parseList

/-- Whether a path has the ending of a source. -/
def isSource (path : Path) : Bool :=
  path.ending?.any fun ending => Text.sameIgnoringCase ending "tex"

/-- The path of a place below the folder at a path. -/
def pathBelow (folder : Path) (names : List String) : Path :=
  names.foldl (fun path name => path.join ⟨name⟩) folder

/-- The path of something that a walk from a folder comes to and does not enter. A walk enters what
its path says is a folder; a path that is too long says nothing, so a folder behind it is left
closed. -/
def walked? (disk : Disk) (folder : Path) (names : List String) : Option Path :=
  let path := pathBelow folder names
  if disk.isFolder (pathBelow folder names.dropLast) && !disk.isFolder path then some path
  else none

/-- The paths that a walk from a folder comes to and does not enter: those of all files below it. -/
def filesBelow (disk : Disk) (folder : Path) : List Path :=
  match disk.place folder with
  | .ok place =>
    (disk.placesBelow place).filterMap fun below => walked? disk folder (below.drop place.length)
  | .error _ => []

/-- The inputs that a path stands for. -/
def inputsOf (disk : Disk) (path : Path) : List Path :=
  if disk.isFolder path then (filesBelow disk path).filter isSource else [path]

/-- Whether a path may stand before another. -/
def notAfter (p q : Path) : Bool := p.compare q != .gt

/-- Of neighbours that are the same path the first stays. -/
def dropRepeated : List Path → List Path
  | p :: q :: rest =>
    if p.components = q.components then dropRepeated (p :: rest) else p :: dropRepeated (q :: rest)
  | paths => paths
termination_by paths => paths.length

/-- The inputs that some paths stand for, in order and each once. -/
def collect (disk : Disk) (paths : List Path) : List Path :=
  dropRepeated ((paths.flatMap (inputsOf disk)).mergeSort notAfter)

end ProofProse.Batch
