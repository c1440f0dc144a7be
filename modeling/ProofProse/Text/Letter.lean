import ProofProse.Text.Letter.Alphabetic
import ProofProse.Text.Letter.Lowercase
import ProofProse.Text.Letter.Numeric
import ProofProse.Text.Letter.Uppercase

/-! # Letters and digits

The classes of characters that the rules about sentences ask for, and the small classes of ASCII
characters that the language of the sources itself is written with. Numbers are written in decimal:
an optional plus sign and at least one ASCII digit, for a value below `2 ^ 64`. -/

namespace ProofProse.Text

/-- A letter or a number sign of any script. -/
def isAlphanumeric (c : Char) : Bool := isAlphabetic c || isNumeric c

/-- An ASCII digit. -/
def isDigit (c : Char) : Bool := '0' ≤ c && c ≤ '9'

/-- An ASCII hexadecimal digit. -/
def isHexDigit (c : Char) : Bool :=
  isDigit c || ('a' ≤ c && c ≤ 'f') || ('A' ≤ c && c ≤ 'F')

/-- An ASCII letter. -/
def isAsciiLetter (c : Char) : Bool := ('a' ≤ c && c ≤ 'z') || ('A' ≤ c && c ≤ 'Z')

/-- ASCII capitals become small letters, all else stays. -/
def lowerAscii (s : String) : String := s.map Char.toLower

/-- Equality up to the case of ASCII letters. -/
def sameIgnoringCase (s t : String) : Bool := lowerAscii s == lowerAscii t

/-! ### Numbers -/

/-- The least number that is too large to be read. -/
def numeralBound : Nat := Nat.pow 2 64

/-- The value of one more digit behind a number; nothing when it grows too large. -/
def appendDigit (n : Nat) (c : Char) : Option Nat :=
  let m := 10 * n + (c.toNat - '0'.toNat)
  if isDigit c && m < numeralBound then some m else none

/-- The value of a list of digits, if every character is one and the value is not too large. -/
def ofDigits? (cs : List Char) : Option Nat :=
  if cs.isEmpty then none else cs.foldlM appendDigit 0

/-- Reads a decimal number. -/
def parseNat? (s : String) : Option Nat :=
  match s.toList with
  | '+' :: cs => ofDigits? cs
  | cs => ofDigits? cs

end ProofProse.Text
