/-! # Sets of code points, and blanks

A set of code points is written as the increasing list of the numbers where membership changes:
`[a, b, c, d]` holds the numbers in `[a, b)` and in `[c, d)`. `Bounds.holds` decides membership by
one walk along the list that stops at the first bound above the number. The sets that are properties
of characters are those of Unicode 17.

Blank characters are those with the Unicode property White_Space. They are trimmed off the ends of a
text, and every run of them is collapsed to one space. -/

namespace ProofProse.Text

/-! ### Sets of code points -/

/-- The bounds of a set of code points, in increasing order. -/
abbrev Bounds := List Nat

/-- Membership of `n`, when `inside` tells whether the numbers before the first bound belong. -/
def Bounds.side (inside : Bool) : Bounds → Nat → Bool
  | [], _ => inside
  | b :: bs, n => if n < b then inside else Bounds.side (!inside) bs n

/-- Membership of the number `n`. -/
def Bounds.holds (bounds : Bounds) (n : Nat) : Bool := Bounds.side false bounds n

/-- Membership of the character `c`. -/
def Bounds.has (bounds : Bounds) (c : Char) : Bool := bounds.holds c.toNat

/-! ### Blank characters -/

/-- Bounds of the property White_Space. -/
def blankBounds : Bounds :=
  [0x9, 0xE, 0x20, 0x21, 0x85, 0x86, 0xA0, 0xA1, 0x1680, 0x1681, 0x2000, 0x200B, 0x2028, 0x202A,
   0x202F, 0x2030, 0x205F, 0x2060, 0x3000, 0x3001]

/-- A blank character. -/
def isBlank (c : Char) : Bool := blankBounds.has c

/-- A space or a tab. -/
def isMargin (c : Char) : Bool := c == ' ' || c == '\t'

/-! ### Lists of characters -/

/-- Drops what `p` accepts off both ends. -/
def trimBy (p : Char → Bool) (cs : List Char) : List Char :=
  ((cs.dropWhile p).reverse.dropWhile p).reverse

/-- Replaces every run of blanks by one space; `gap` tells that a run is being read and its space
has been written. -/
def collapseFrom (gap : Bool) (out : List Char) : List Char → List Char
  | [] => out.reverse
  | c :: cs =>
    if isBlank c then collapseFrom true (if gap then out else ' ' :: out) cs
    else collapseFrom false (c :: out) cs

/-- Replaces every run of blanks by one space. -/
def collapseBlanks (cs : List Char) : List Char := collapseFrom false [] cs

/-! ### Texts -/

/-- A text without the blanks at its ends. -/
def trim (s : String) : String := String.ofList (trimBy isBlank s.toList)

/-- A text without the double quotes at its ends. -/
def trimQuotes (s : String) : String := String.ofList (trimBy (· == '"') s.toList)

end ProofProse.Text
