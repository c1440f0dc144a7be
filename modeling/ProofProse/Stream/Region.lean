import ProofProse.Environment
import ProofProse.Stream

/-! # Regions that are passed over

Readings that keep nothing: the branch of a conditional that is not taken, verbatim text, the rest
of a file, and the rest of a proof that was given up. -/

namespace ProofProse

/-- How the reading of a region ended. -/
inductive RegionEnd where
  /-- The end of the region was found. -/
  | found
  /-- The region is longer than it may be. -/
  | tooLong
  /-- The tokens ran out. -/
  | ended
  deriving DecidableEq

/-! ### Branches -/

/-- Commands that are followed by the name they define. -/
def namingCommands : List String := ["newif", "def", "gdef", "edef", "xdef", "let"]

/-- Reads to the end of a branch, with `depth` conditionals open inside it. A branch ends at its
`fi`, or at its `else` when `atElse` says so. `opens` tells which names open a conditional; the
token behind a naming command (`named`) is passed over whatever it is. -/
def branchFrom (limit : Nat) (opens : String → Bool) (atElse named : Bool)
    (depth count fileEnds : Nat) : List Token → Reading RegionEnd
  | [] => ⟨if count > limit then .tooLong else .ended, [], count, fileEnds⟩
  | t :: rest =>
    if named then branchFrom limit opens atElse false depth (count + 1) fileEnds rest
    else if count > limit then ⟨.tooLong, t :: rest, count, fileEnds⟩
    else
      match t with
      | .endOfInput => branchFrom limit opens atElse false depth (count + 1) (fileEnds + 1) rest
      | .control name =>
        if name == "fi" then
          match depth with
          | 0 => ⟨.found, rest, count + 1, fileEnds⟩
          | depth + 1 => branchFrom limit opens atElse false depth (count + 1) fileEnds rest
        else if name == "else" && depth == 0 && atElse then ⟨.found, rest, count + 1, fileEnds⟩
        else if namingCommands.contains name then
          branchFrom limit opens atElse true depth (count + 1) fileEnds rest
        else if opens name then
          branchFrom limit opens atElse false (depth + 1) (count + 1) fileEnds rest
        else branchFrom limit opens atElse false depth (count + 1) fileEnds rest
      | _ => branchFrom limit opens atElse false depth (count + 1) fileEnds rest

/-- Reads to the end of a branch. -/
def readBranch (limit : Nat) (opens : String → Bool) (atElse : Bool) (tokens : List Token) :
    Reading RegionEnd :=
  branchFrom limit opens atElse false 0 0 0 tokens

/-! ### Verbatim text -/

/-- Reads to the end of the verbatim environment `name`. -/
def verbatimFrom (limit : Nat) (name : String) (count fileEnds : Nat) :
    List Token → Reading RegionEnd
  | [] => ⟨if count > limit then .tooLong else .ended, [], count, fileEnds⟩
  | t :: rest =>
    if count > limit then ⟨.tooLong, t :: rest, count, fileEnds⟩
    else
      match t with
      | .endOfInput => verbatimFrom limit name (count + 1) (fileEnds + 1) rest
      | .control command =>
        match if command == "end" then groupName? rest else none with
        | some (found, span) =>
          if found == name then ⟨.found, rest.drop span, count + 1 + span, fileEnds⟩
          else verbatimFrom limit name (count + 1) fileEnds rest
        | none => verbatimFrom limit name (count + 1) fileEnds rest
      | _ => verbatimFrom limit name (count + 1) fileEnds rest

/-- Reads to the end of the verbatim environment `name`. -/
def readVerbatim (limit : Nat) (name : String) (tokens : List Token) : Reading RegionEnd :=
  verbatimFrom limit name 0 0 tokens

/-- How many tokens are looked through for the end of verbatim text in a line, and for the end of a
name that is being made. -/
def inlineLimit : Nat := 1000

/-- Reads to the character `mark`, at most `left` tokens. -/
def inlineFrom (mark : Char) (count : Nat) : Nat → List Token → Reading Unit
  | 0, tokens => ⟨(), tokens, count, 0⟩
  | _ + 1, [] => ⟨(), [], count, 0⟩
  | left + 1, t :: rest =>
    if t.isChar mark then ⟨(), rest, count + 1, 0⟩ else inlineFrom mark (count + 1) left rest

/-- Reads verbatim text in a line: a star, if there is one, a mark, and all up to the same mark. -/
def readInlineVerbatim (tokens : List Token) : Reading Unit :=
  let start := (Stream.ofList tokens).skipChar '*'
  match start.ahead with
  | [] => ⟨(), [], start.consumed, 0⟩
  | .char mark :: rest => inlineFrom mark (start.consumed + 1) inlineLimit rest
  | _ :: rest => ⟨(), rest, start.consumed + 1, 0⟩

/-! ### Names that are made -/

/-- Reads to the end of a name that is being made; `name` holds its tokens, last one first. The name
is put in front as a control sequence. What does not end in time goes back. -/
def madeNameFrom (name : List Token) (count : Nat) : Nat → List Token → Reading Unit
  | 0, tokens => ⟨(), name.reverseAux tokens, count, 0⟩
  | _ + 1, [] => ⟨(), name.reverse, count, 0⟩
  | left + 1, t :: rest =>
    if t.isControl "endcsname" then
      ⟨(), .control (Text.trim (printed name.reverse)) :: rest, count + 1, 0⟩
    else madeNameFrom (t :: name) (count + 1) left rest

/-- Makes a control sequence out of the tokens up to the end of the name. -/
def readMadeName (tokens : List Token) : Reading Unit := madeNameFrom [] 0 inlineLimit tokens

/-! ### Files and code -/

/-- Reads to the end of the current file. -/
def fileRestFrom (count : Nat) : List Token → Reading Unit
  | [] => ⟨(), [], count, 0⟩
  | .endOfInput :: rest => ⟨(), rest, count + 1, 1⟩
  | _ :: rest => fileRestFrom (count + 1) rest

/-- Reads to the end of the current file. -/
def readFileRest (tokens : List Token) : Reading Unit := fileRestFrom 0 tokens

/-- Reads to the control sequence `last`, or to the end. -/
def codeFrom (last : String) (count fileEnds : Nat) : List Token → Reading Unit
  | [] => ⟨(), [], count, fileEnds⟩
  | .endOfInput :: rest => codeFrom last (count + 1) (fileEnds + 1) rest
  | .control name :: rest =>
    if name == last then ⟨(), rest, count + 1, fileEnds⟩
    else codeFrom last (count + 1) fileEnds rest
  | _ :: rest => codeFrom last (count + 1) fileEnds rest

/-- Reads to the control sequence `last`, or to the end. -/
def readCode (last : String) (tokens : List Token) : Reading Unit := codeFrom last 0 0 tokens

/-! ### Proofs that were given up -/

/-- Reads to the end of a proof with `nesting` proofs open, of which `pass` tokens belong to a name
already seen. -/
def proofRestFrom (nesting pass count fileEnds : Nat) : List Token → Reading Unit
  | [] => ⟨(), [], count, fileEnds⟩
  | t :: rest =>
    match pass with
    | pass + 1 => proofRestFrom nesting pass (count + 1) fileEnds rest
    | 0 =>
      match nesting with
      | 0 => ⟨(), t :: rest, count, fileEnds⟩
      | inner + 1 =>
        match t with
        | .endOfInput => proofRestFrom nesting 0 (count + 1) (fileEnds + 1) rest
        | .control name =>
          if name == "endproof" then proofRestFrom inner 0 (count + 1) fileEnds rest
          else if name == "begin" || name == "end" then
            match groupName? rest with
            | some (environment, span) =>
              if isProofName environment then
                proofRestFrom (if name == "begin" then nesting + 1 else inner) span (count + 1)
                  fileEnds rest
              else proofRestFrom nesting 0 (count + 1) fileEnds rest
            | none => proofRestFrom nesting 0 (count + 1) fileEnds rest
          else proofRestFrom nesting 0 (count + 1) fileEnds rest
        | _ => proofRestFrom nesting 0 (count + 1) fileEnds rest

/-- Reads to the end of a proof with `nesting` proofs open. -/
def readProofRest (nesting : Nat) (tokens : List Token) : Reading Unit :=
  proofRestFrom nesting 0 0 0 tokens

end ProofProse
