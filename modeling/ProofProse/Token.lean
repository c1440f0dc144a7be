import ProofProse.Text.Blank
import ProofProse.Text.Letter

/-! # Tokens

A source is read as a flat sequence of tokens: control sequences, group braces, parameters,
characters, word gaps and the signs that are special to mathematics and tables. Two further tokens
are never written by an author: a name made inert by the expansion of its own definition, and the
mark that stands where an included file ends.

`Token.text` writes a token as source text again, and `printed` a whole list. -/

namespace ProofProse

/-- The smallest unit of a source. -/
inductive Token where
  /-- A control sequence; the name is without its backslash. -/
  | control (name : String)
  /-- The brace that opens a group. -/
  | openGroup
  /-- The brace that closes a group. -/
  | closeGroup
  /-- The place of an argument in the body of a definition. -/
  | parameter (number : Nat)
  /-- A parameter of a definition made by the body, one expansion away from being a parameter. -/
  | deferred (number : Nat)
  /-- A printed character. -/
  | char (c : Char)
  /-- A run of blanks. -/
  | space
  /-- The sign that opens and closes mathematics. -/
  | mathShift
  /-- The sign between the cells of a table. -/
  | alignTab
  /-- The sign before a superscript. -/
  | superscript
  /-- The sign before a subscript. -/
  | subscript
  /-- A character that acts like a command. -/
  | active (c : Char)
  /-- A name that no longer stands for its definition. -/
  | inert (name : String)
  /-- The end of an included file. -/
  | endOfInput
  deriving DecidableEq, Inhabited

namespace Token

/-- The source text of a token. -/
def text : Token → String
  | control name => "\\" ++ name
  | openGroup => "\x7b"
  | closeGroup => "\x7d"
  | parameter n => "#" ++ toString n
  | deferred n => "##" ++ toString n
  | char c => String.singleton c
  | space => " "
  | mathShift => "$"
  | alignTab => "&"
  | superscript => "^"
  | subscript => "_"
  | active c => String.singleton c
  | inert _ => ""
  | endOfInput => ""

/-- A run of blanks. -/
def isSpace : Token → Bool
  | space => true
  | _ => false

/-- The control sequence `name`. -/
def isControl (name : String) : Token → Bool
  | control n => n == name
  | _ => false

/-- The character `c`. -/
def isChar (c : Char) : Token → Bool
  | char d => d == c
  | _ => false

/-- A brace. -/
def isBrace : Token → Bool
  | openGroup => true
  | closeGroup => true
  | _ => false

/-- The name of a control sequence. -/
def controlName? : Token → Option String
  | control name => some name
  | _ => none

/-- A letter or digit. -/
def isAlphanumeric : Token → Bool
  | char c => Text.isAlphanumeric c
  | _ => false

/-- A small letter. -/
def isSmallLetter : Token → Bool
  | char c => Text.isLowercase c
  | _ => false

/-- What a token adds to the number of open groups. -/
def depthChange : Token → Int
  | openGroup => 1
  | closeGroup => -1
  | _ => 0

end Token

/-- The source text of a list of tokens. -/
def printed (tokens : List Token) : String := String.join (tokens.map Token.text)

/-- The text of a list of tokens without braces and without the blanks at its ends. Names of
environments, files and flags are read this way. -/
def plainText (tokens : List Token) : String :=
  Text.trim (printed (tokens.filter fun t => !t.isBrace))

/-- The name of the first control sequence of a list. -/
def firstControl? (tokens : List Token) : Option String := tokens.findSome? Token.controlName?

/-- Opening less closing braces. -/
def braceBalance (tokens : List Token) : Int := (tokens.map Token.depthChange).foldr (· + ·) 0

/-- The characters of a text, a token each. -/
def charTokens (s : String) : List Token := s.toList.map Token.char

end ProofProse
