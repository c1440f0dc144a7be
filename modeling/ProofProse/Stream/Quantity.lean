import ProofProse.Stream

/-! # Numbers and dimensions

Numbers and dimensions are written without braces, so that only their form tells where they end.
Nothing is kept of them. -/

namespace ProofProse

open Text (isDigit isHexDigit)

/-- The units of length. -/
def units : List String :=
  ["pt", "em", "ex", "in", "cm", "mm", "bp", "dd", "pc", "sp", "mu", "cc", "nd", "nc", "px"]

/-- Whether the front of a list spells a word of small letters, capitals allowed. -/
def spells : List Char → List Token → Bool
  | [], _ => true
  | c :: cs, .char d :: rest => d.toLower == c && spells cs rest
  | _ :: _, _ => false

/-- A space or a sign. -/
def isSignOrSpace : Token → Bool
  | .space => true
  | .char c => c == '+' || c == '-'
  | _ => false

/-- A digit. -/
def isDigitToken : Token → Bool
  | .char c => isDigit c
  | _ => false

/-- A hexadecimal digit. -/
def isHexToken : Token → Bool
  | .char c => isHexDigit c
  | _ => false

/-- A digit or the mark between the whole and the broken part of a number. -/
def isDecimalToken : Token → Bool
  | .char c => isDigit c || c == '.' || c == ','
  | _ => false

/-- The letter that is repeated for stronger stretch. -/
def isStretchLetter : Token → Bool
  | .char c => c == 'l' || c == 'L'
  | _ => false

namespace Stream

/-- Reads an equals sign and the spaces around it, or the spaces alone. -/
def skipEquals (s : Stream) : Stream :=
  let s := s.skipSpaces
  match s.ahead with
  | .char '=' :: _ => (s.skip 1).skipSpaces
  | _ => s

/-- Reads a word behind spaces, and one space behind it. -/
def keyword? (s : Stream) (word : String) : Option Stream :=
  match s.pastSpaces? with
  | none => none
  | some (offset, _) =>
    if spells word.toList (s.ahead.drop offset) then
      some (s.skip (offset + word.length)).skipOneSpace
    else none

/-- Reads a word if it is there. -/
def skipKeyword (s : Stream) (word : String) : Stream := (s.keyword? word).getD s

/-- Reads the first unit that is there, if any. -/
def skipUnit (s : Stream) : Stream := (units.findSome? s.keyword?).getD s

/-- Reads a length: signs, a decimal number, and a control sequence, a stretch or a unit. -/
def skipLength (s : Stream) : Stream :=
  let s := ((s.skipWhile isSignOrSpace).skipWhile isDecimalToken).skipSpaces
  match s.ahead with
  | .control _ :: _ => s.skip 1
  | _ =>
    let s := s.skipKeyword "true"
    match s.keyword? "fil" with
    | some s => (s.skipWhile isStretchLetter).skipOneSpace
    | none => s.skipUnit

/-- Reads a length and what stands behind the word, if it is there. -/
def skipPart (s : Stream) (word : String) : Stream :=
  match s.keyword? word with
  | some s => s.skipLength
  | none => s

/-- Reads a dimension: a length, and how far it may stretch and shrink. -/
def skipDimension (s : Stream) : Stream := (s.skipLength.skipPart "plus").skipPart "minus"

/-- Reads a number: digits, hexadecimal or octal digits behind a mark, a character behind a mark, or
a control sequence. The flag tells that the number is the value of a counter, whose name is still to
be read. -/
def skipNumber (s : Stream) : Stream × Bool :=
  let s := s.skipWhile isSignOrSpace
  match s.ahead with
  | .control name :: _ => (s.skip 1, name == "value")
  | .char '\x60' :: _ => ((s.skip 2).skipOneSpace, false)
  | .char '"' :: _ => (((s.skip 1).skipWhile isHexToken).skipOneSpace, false)
  | .char '\x27' :: _ => (((s.skip 1).skipWhile isHexToken).skipOneSpace, false)
  | _ => ((s.skipWhile isDigitToken).skipOneSpace, false)

end Stream

end ProofProse
