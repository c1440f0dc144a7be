import ProofProse.Environment
import ProofProse.Stream

/-! # Groups

Readings of arguments: up to the brace or bracket that closes a group, and up to a delimiter. Inside
a proof (`guarded`) an argument must not run past the end of the proof; the command that ends the
proof then stays in front. The ends of included files are dropped from what braces and brackets
enclose. -/

namespace ProofProse

/-- How the reading of an argument ended. -/
inductive Argument where
  /-- The argument is complete. -/
  | closed (content : List Token)
  /-- The argument ran into the end of its proof. -/
  | runaway
  /-- The tokens ran out. -/
  | ended
  deriving DecidableEq

/-- Whether a command closes a proof, when `rest` is behind it. -/
def closesProof (name : String) (rest : List Token) : Bool :=
  name == "end" && match groupName? rest with
    | some (environment, _) => isProofName environment
    | none => false

/-- Reads to the brace that closes a group, with `depth` groups open inside it. The content so far
is given last token first. -/
def balancedFrom (guarded : Bool) (depth : Nat) (content : List Token) (count fileEnds : Nat) :
    List Token → Reading Argument
  | [] => ⟨.ended, [], count, fileEnds⟩
  | .openGroup :: rest =>
    balancedFrom guarded (depth + 1) (.openGroup :: content) (count + 1) fileEnds rest
  | .closeGroup :: rest =>
    match depth with
    | 0 => ⟨.closed content.reverse, rest, count + 1, fileEnds⟩
    | depth + 1 => balancedFrom guarded depth (.closeGroup :: content) (count + 1) fileEnds rest
  | .endOfInput :: rest => balancedFrom guarded depth content (count + 1) (fileEnds + 1) rest
  | .control name :: rest =>
    if guarded && closesProof name rest then
      ⟨.runaway, .control name :: rest, count + 1, fileEnds⟩
    else balancedFrom guarded depth (.control name :: content) (count + 1) fileEnds rest
  | t :: rest => balancedFrom guarded depth (t :: content) (count + 1) fileEnds rest

/-- Reads to the brace that closes a group. -/
def readBalanced (guarded : Bool) (tokens : List Token) : Reading Argument :=
  balancedFrom guarded 0 [] 0 0 tokens

/-- Reads to the bracket that closes an argument, with so many brackets and braces open inside it.
Brackets within braces do not count. A brace of an enclosing group ends the argument and stays in
front. -/
def bracketedFrom (guarded : Bool) (brackets braces : Nat) (content : List Token)
    (count fileEnds : Nat) : List Token → Reading Argument
  | [] => ⟨.ended, [], count, fileEnds⟩
  | .openGroup :: rest =>
    bracketedFrom guarded brackets (braces + 1) (.openGroup :: content) (count + 1) fileEnds rest
  | .closeGroup :: rest =>
    match braces with
    | 0 => ⟨.closed content.reverse, .closeGroup :: rest, count + 1, fileEnds⟩
    | braces + 1 =>
      bracketedFrom guarded brackets braces (.closeGroup :: content) (count + 1) fileEnds rest
  | .endOfInput :: rest =>
    bracketedFrom guarded brackets braces content (count + 1) (fileEnds + 1) rest
  | .control name :: rest =>
    if guarded && closesProof name rest then
      ⟨.runaway, .control name :: rest, count + 1, fileEnds⟩
    else
      bracketedFrom guarded brackets braces (.control name :: content) (count + 1) fileEnds rest
  | .char c :: rest =>
    if c == '[' && braces == 0 then
      bracketedFrom guarded (brackets + 1) braces (.char c :: content) (count + 1) fileEnds rest
    else if c == ']' && braces == 0 then
      match brackets with
      | 0 => ⟨.closed content.reverse, rest, count + 1, fileEnds⟩
      | brackets + 1 =>
        bracketedFrom guarded brackets braces (.char c :: content) (count + 1) fileEnds rest
    else bracketedFrom guarded brackets braces (.char c :: content) (count + 1) fileEnds rest
  | t :: rest => bracketedFrom guarded brackets braces (t :: content) (count + 1) fileEnds rest

/-- Reads to the bracket that closes an argument. -/
def readBracketed (guarded : Bool) (tokens : List Token) : Reading Argument :=
  bracketedFrom guarded 0 0 [] 0 0 tokens

/-! ### Delimited arguments -/

/-- How many tokens an argument may have when its delimiter is looked for once more. -/
def delimitedLimit : Nat := 10000

/-- How the reading of a delimited argument ended. -/
inductive Delimited where
  /-- The delimiter was found behind the argument. -/
  | found (content : List Token)
  /-- The delimiter does not come in time, or not within the enclosing group. -/
  | lost
  /-- The tokens ran out. -/
  | ended
  deriving DecidableEq

/-- Whether the groups in `tokens` stay open up to the last token, with `depth` of them open. -/
def staysOpen : Nat → List Token → Bool
  | _, [] => true
  | _, [_] => true
  | depth, .openGroup :: rest => staysOpen (depth + 1) rest
  | depth, .closeGroup :: rest => 1 < depth && staysOpen (depth - 1) rest
  | depth, _ :: rest => 0 < depth && staysOpen depth rest

/-- The content of a list of tokens that is one group, and any other list as it is. -/
def stripBraces (content : List Token) : List Token :=
  match content with
  | .openGroup :: rest =>
    if rest.getLast? = some .closeGroup && staysOpen 0 content then rest.dropLast else content
  | _ => content

/-- Reads to the delimiter, outside all groups, with `depth` groups open. Tokens of an argument that
is given up go back in front. -/
def delimitedFrom (delimiter : List Token) (depth : Nat) (content : List Token) (count : Nat) :
    List Token → Reading Delimited
  | [] =>
    if count > delimitedLimit then ⟨.lost, content.reverse, count, 0⟩
    else ⟨.ended, content.reverse, count, 0⟩
  | t :: rest =>
    if depth == 0 && delimiter.isPrefixOf (t :: rest) then
      ⟨.found (stripBraces content.reverse), (t :: rest).drop delimiter.length,
        count + delimiter.length, 0⟩
    else if count > delimitedLimit then ⟨.lost, content.reverseAux (t :: rest), count, 0⟩
    else
      match t with
      | .openGroup => delimitedFrom delimiter (depth + 1) (t :: content) (count + 1) rest
      | .closeGroup =>
        match depth with
        | 0 => ⟨.lost, content.reverseAux (t :: rest), count + 1, 0⟩
        | depth + 1 => delimitedFrom delimiter depth (t :: content) (count + 1) rest
      | t => delimitedFrom delimiter depth (t :: content) (count + 1) rest

/-- Reads to the delimiter, which is not empty. -/
def readDelimited (delimiter : List Token) (tokens : List Token) : Reading Delimited :=
  delimitedFrom delimiter 0 [] 0 tokens

/-! ### Groups of a list -/

/-- Reads to the brace that closes a group, or to the end. -/
def groupFrom (depth : Nat) (content : List Token) (count : Nat) : List Token → Reading (List Token)
  | [] => ⟨content.reverse, [], count, 0⟩
  | .openGroup :: rest => groupFrom (depth + 1) (.openGroup :: content) (count + 1) rest
  | .closeGroup :: rest =>
    match depth with
    | 0 => ⟨content.reverse, rest, count + 1, 0⟩
    | depth + 1 => groupFrom depth (.closeGroup :: content) (count + 1) rest
  | t :: rest => groupFrom depth (t :: content) (count + 1) rest

/-- Reads a group, or a single token, behind spaces. -/
def readGroup (count : Nat) : List Token → Reading (List Token)
  | [] => ⟨[], [], count, 0⟩
  | .space :: rest => readGroup (count + 1) rest
  | .openGroup :: rest => groupFrom 0 [] (count + 1) rest
  | t :: rest => ⟨[t], rest, count + 1, 0⟩

/-- The group at the front of a stream, and the stream behind it. -/
def Stream.readGroup (s : Stream) : List Token × Stream :=
  let reading := ProofProse.readGroup 0 s.ahead
  (reading.result, s.behind reading)

end ProofProse
