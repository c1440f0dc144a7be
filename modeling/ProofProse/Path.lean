import ProofProse.Text.Letter
import ProofProse.Text.Search

/-! # Paths

A path is a text with slashes. Its components are the names between them: repeated slashes, slashes
at the end and single dots behind the first place say nothing. Two paths are the same when their
components are; the text is kept as it was written. -/

namespace ProofProse

/-- A path as it is written. -/
structure Path where
  /-- The text. -/
  text : String
  deriving DecidableEq, Inhabited

namespace Path

/-- A component of a path. -/
inductive Component where
  /-- The top of all folders. -/
  | root
  /-- The folder itself. -/
  | current
  /-- The folder above. -/
  | parent
  /-- An entry of a folder. -/
  | name (s : String)
  deriving DecidableEq

/-- The component that a part of a path stands for; a dot counts in the first place only. -/
def partComponent? (first : Bool) (part : String) : Option Component :=
  if part == "" then none
  else if part == "." then if first then some .current else none
  else if part == ".." then some .parent
  else some (.name part)

/-- Whether a path starts at the top. -/
def isRooted (path : Path) : Bool := path.text.toList.head? == some '/'

/-- The parts of a path between its slashes, the slash at the top left out. -/
def parts (path : Path) : List String :=
  match path.text.toList with
  | '/' :: cs => Text.split '/' (String.ofList cs)
  | _ => Text.split '/' path.text

/-- The components of some parts; `first` tells whether the first of them may be a dot. -/
def partComponents (first : Bool) : List String → List Component
  | [] => []
  | part :: parts => (partComponent? first part).toList ++ partComponents false parts

/-- The components of a path. -/
def components (path : Path) : List Component :=
  if path.isRooted then .root :: partComponents false path.parts
  else partComponents true path.parts

/-- The path of a list of parts. -/
def ofParts (rooted : Bool) (parts : List String) : Path :=
  ⟨(if rooted then "/" else "") ++ String.intercalate "/" parts⟩

/-- Parts without those at the end that say nothing. -/
def trimParts (first : Bool) : List String → List String
  | [] => []
  | part :: parts =>
    let rest := trimParts false parts
    if rest.isEmpty && (partComponent? first part).isNone then [] else part :: rest

/-- The parts up to the last that says something. -/
def trimmedParts (path : Path) : List String := trimParts (!path.isRooted) path.parts

/-- The path above, if the path has a last component. -/
def parent? (path : Path) : Option Path :=
  match path.trimmedParts with
  | [] => none
  | parts => some (ofParts path.isRooted (trimParts (!path.isRooted) parts.dropLast))

/-- The name of the last component, if it is one. -/
def fileName? (path : Path) : Option String :=
  match path.components.getLast? with
  | some (.name s) => some s
  | _ => none

/-- A path from the folder `path`. A path that starts at the top stays what it is. -/
def join (path target : Path) : Path :=
  if target.isRooted then target
  else
    match path.text.toList.getLast? with
    | none => target
    | some '/' => ⟨path.text ++ target.text⟩
    | some _ => ⟨path.text ++ "/" ++ target.text⟩

/-- A file name cut at its last dot, unless the dot stands first. -/
def splitName (name : String) : String × Option String :=
  match Text.cutAt '.' name.toList.reverse with
  | none => (name, none)
  | some (ending, stem) =>
    if stem.isEmpty then (name, none)
    else (String.ofList stem.reverse, some (String.ofList ending.reverse))

/-- The ending of the file name. -/
def ending? (path : Path) : Option String := path.fileName?.bind fun name => (splitName name).2

/-- The path with an ending put behind the stem of its file name. A path without a file name stays
what it is. -/
def setEnding (path : Path) (ending : String) : Path :=
  match path.fileName? with
  | none => path
  | some name =>
    ofParts path.isRooted (path.trimmedParts.dropLast ++ [(splitName name).1 ++ "." ++ ending])

/-- The path with as many characters taken off its end as the ending of its file name has. The dot
before the ending stays. -/
def dropEnding (path : Path) : Path :=
  match path.ending? with
  | none => path
  | some old =>
    let cs := path.text.toList
    ⟨String.ofList (cs.take (cs.length - old.length))⟩

/-- The path with another ending of its file name: the old one comes off first, then the new one is
put behind the stem. A name of two dots and an ending is left with the two dots alone, which are no
file name but the step upwards, and gets no new ending. -/
def withEnding (path : Path) (ending : String) : Path := path.dropEnding.setEnding ending

/-! ### Paths below others -/

/-- Passes over parts that stand for the given components. -/
def passParts (first : Bool) : List Component → List String → Option (List String)
  | [], parts => some parts
  | _ :: _, [] => none
  | c :: cs, part :: parts =>
    match partComponent? first part with
    | none => passParts false (c :: cs) parts
    | some d => if d = c then passParts false cs parts else none

/-- Parts without those at the front that say nothing. -/
def dropSilent (parts : List String) : List String :=
  parts.dropWhile fun part => (partComponent? false part).isNone

/-- The rest of a path below the folder `base`, if it is below. -/
def below? (path base : Path) : Option Path :=
  match base.components with
  | [] => some (ofParts path.isRooted path.trimmedParts)
  | .root :: cs =>
    if path.isRooted then
      (passParts false cs path.parts).map fun parts =>
        ofParts false (trimParts false (dropSilent parts))
    else none
  | cs =>
    if path.isRooted then none
    else
      (passParts true cs path.parts).map fun parts =>
        ofParts false (trimParts false (dropSilent parts))

/-! ### Order -/

/-- The rank of the kind of a component. -/
def Component.rank : Component → Nat
  | root => 0
  | current => 1
  | parent => 2
  | name _ => 3

/-- The bytes of the name of a component. -/
def Component.bytes : Component → List Nat
  | name s => s.toUTF8.toList.map UInt8.toNat
  | _ => []

/-- The key by which components are ordered: their kind, then their bytes. -/
def Component.key (c : Component) : List Nat := c.rank :: c.bytes

/-- Lexicographic comparison. -/
def compareLists {α : Type} (cmp : α → α → Ordering) : List α → List α → Ordering
  | [], [] => .eq
  | [], _ :: _ => .lt
  | _ :: _, [] => .gt
  | x :: xs, y :: ys => (cmp x y).then (compareLists cmp xs ys)

/-- Paths are compared component by component. -/
def compare (p q : Path) : Ordering :=
  compareLists (fun c d => compareLists Ord.compare c.key d.key) p.components q.components

end Path

end ProofProse
