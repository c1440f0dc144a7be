import ProofProse.Text.Transducer
import ProofProse.Token

/-! # The lexer

The lexer is a transducer from characters to tokens. A backslash and the letters behind it make one
control sequence, which takes the blanks behind it with it; a backslash and any other character make
a control symbol. Two or three hyphens become a dash, two quotation marks of a kind a double quote,
and a hash sign with a digit from 1 to 9 a parameter. Runs of blanks become one space. The sign `@`
counts as a letter in names. -/

namespace ProofProse.Lexer

open Text (isBlank isAsciiLetter)

/-- The characters of the names of control words. -/
def isNameLetter (c : Char) : Bool := isAsciiLetter c || c == '@'

/-- The digits that number parameters. -/
def isParameterDigit (c : Char) : Bool := '1' ≤ c && c ≤ '9'

/-- The number a digit stands for. -/
def digitValue (c : Char) : Nat := c.toNat - '0'.toNat

/-- What has been read and not yet written as a token. -/
inductive Mode where
  /-- Nothing. -/
  | text
  /-- A backslash. -/
  | escape
  /-- A backslash and the letters of a name, last letter first. -/
  | word (letters : List Char)
  /-- Blanks that belong to the token before them. -/
  | blanks
  /-- One hash sign. -/
  | hash
  /-- Two hash signs. -/
  | hashes
  /-- One hyphen. -/
  | hyphen
  /-- Two hyphens. -/
  | hyphens
  /-- One quotation mark. -/
  | quote (mark : Char)
  deriving DecidableEq

/-- A short dash. -/
def shortDash : Char := '\u2013'

/-- A long dash. -/
def longDash : Char := '\u2014'

/-- Reads a character when nothing is pending. -/
def begin (c : Char) : Mode × List Token :=
  match c with
  | '\\' => (.escape, [])
  | '\x7b' => (.text, [.openGroup])
  | '\x7d' => (.text, [.closeGroup])
  | '$' => (.text, [.mathShift])
  | '&' => (.text, [.alignTab])
  | '^' => (.text, [.superscript])
  | '_' => (.text, [.subscript])
  | '~' => (.text, [.active '~'])
  | '#' => (.hash, [])
  | '-' => (.hyphen, [])
  | '\x60' => (.quote c, [])
  | '\x27' => (.quote c, [])
  | c => if isBlank c then (.blanks, [.space]) else (.text, [.char c])

/-- The tokens of what is pending when it cannot go on. -/
def flush : Mode → List Token
  | .text => []
  | .escape => [.char '\\']
  | .word letters => [.control (String.ofList letters.reverse)]
  | .blanks => []
  | .hash => [.char '#']
  | .hashes => [.char '#', .char '#']
  | .hyphen => [.char '-']
  | .hyphens => [.char shortDash]
  | .quote mark => [.char mark]

/-- Writes what is pending and reads a character afresh. -/
def restart (pending : Mode) (c : Char) : Mode × List Token :=
  let r := begin c
  (r.1, flush pending ++ r.2)

/-- The control symbol of a character; a newline counts as a space. -/
def symbolName (c : Char) : String := String.singleton (if c == '\n' then ' ' else c)

/-- Reads one character. -/
def step (mode : Mode) (c : Char) : Mode × List Token :=
  match mode with
  | .text => begin c
  | .escape =>
    if isNameLetter c then (.word [c], []) else (.text, [.control (symbolName c)])
  | .word letters =>
    if isNameLetter c then (.word (c :: letters), [])
    else if isBlank c then (.blanks, flush mode)
    else restart mode c
  | .blanks => if isBlank c then (.blanks, []) else begin c
  | .hash =>
    if isParameterDigit c then (.text, [.parameter (digitValue c)])
    else if c == '#' then (.hashes, [])
    else restart mode c
  | .hashes =>
    if isParameterDigit c then (.text, [.deferred (digitValue c)])
    else if c == '#' then (.hashes, [.char '#'])
    else restart mode c
  | .hyphen => if c == '-' then (.hyphens, []) else restart mode c
  | .hyphens => if c == '-' then (.text, [.char longDash]) else restart mode c
  | .quote mark => if c == mark then (.text, [.char '"']) else restart mode c

/-- The lexer. -/
def machine : Text.Transducer Mode Char Token where
  start := .text
  step := step
  finish := flush

end ProofProse.Lexer

namespace ProofProse

/-- The tokens of a list of characters. -/
def tokenize (cs : List Char) : List Token := Lexer.machine.run cs

end ProofProse
