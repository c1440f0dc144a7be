import ProofProse.Stream

/-! # Parameter texts

The parameter text of a definition stands between the name and the body. It consists of the tokens
that must follow the name, and behind each parameter the tokens that end its argument. -/

namespace ProofProse

/-- How long a parameter text may be when it is read on. -/
def parameterTextLimit : Nat := 256

/-- How the reading of a parameter text ended. -/
inductive ParameterText where
  /-- The brace before the body was found. -/
  | found (lead : List Token) (delimiters : List (List Token))
  /-- The text is too long for a parameter text. -/
  | lost
  /-- The tokens ran out. -/
  | ended
  deriving DecidableEq

/-- A parameter text that has been read in part; all lists have their last member first. -/
structure PartialText where
  /-- The tokens before the first parameter. -/
  lead : List Token := []
  /-- The delimiter behind each parameter. -/
  delimiters : List (List Token) := []

/-- One more parameter. -/
def PartialText.addParameter (text : PartialText) : PartialText :=
  { text with delimiters := [] :: text.delimiters }

/-- One more token that is no parameter. -/
def PartialText.addToken (text : PartialText) (token : Token) : PartialText :=
  match text.delimiters with
  | [] => { text with lead := token :: text.lead }
  | delimiter :: earlier => { text with delimiters := (token :: delimiter) :: earlier }

/-- The text in reading order. -/
def PartialText.complete (text : PartialText) : ParameterText :=
  .found text.lead.reverse (text.delimiters.map List.reverse).reverse

/-- Reads on in a parameter text of which `seen` has been read, last token first. -/
def parameterTextFrom (text : PartialText) (seen : List Token) (count : Nat) :
    List Token → Reading ParameterText
  | [] =>
    if count > parameterTextLimit then ⟨.lost, seen.reverse, count, 0⟩
    else ⟨.ended, [], count, 0⟩
  | t :: rest =>
    if count > parameterTextLimit then ⟨.lost, seen.reverseAux (t :: rest), count, 0⟩
    else
      match t with
      | .openGroup => ⟨text.complete, rest, count + 1, 0⟩
      | .parameter _ => parameterTextFrom text.addParameter (t :: seen) (count + 1) rest
      | t => parameterTextFrom (text.addToken t) (t :: seen) (count + 1) rest

/-- Reads a parameter text and the brace behind it. -/
def readParameterText (tokens : List Token) : Reading ParameterText :=
  parameterTextFrom {} [] 0 tokens

end ProofProse
