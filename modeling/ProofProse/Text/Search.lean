/-! # Searching and cutting texts

Literal search and replacement, and cutting at separator characters and into lines. Everything is
said of lists of characters; the forms for `String` follow. -/

namespace ProofProse.Text

/-- Some part of the text is exactly `pattern`. -/
def occursIn (pattern : List Char) : List Char → Bool
  | [] => pattern.isEmpty
  | c :: cs => pattern.isPrefixOf (c :: cs) || occursIn pattern cs

/-- Writes `new` for every occurrence of `old`, found from left to right without overlaps. `skip`
counts the characters of the last occurrence that are still to be passed over. -/
def substituteFrom (old new : List Char) (out : List Char) : Nat → List Char → List Char
  | _, [] => out.reverse
  | skip + 1, _ :: cs => substituteFrom old new out skip cs
  | 0, c :: cs =>
    if old.isPrefixOf (c :: cs) then
      substituteFrom old new (new.reverseAux out) (old.length - 1) cs
    else substituteFrom old new (c :: out) 0 cs

/-- Writes `new` for every occurrence of `old`, which is not empty. -/
def substituteAll (old new cs : List Char) : List Char := substituteFrom old new [] 0 cs

/-- The parts of a text between the characters that `p` accepts; `part` holds what was read of the
current one, last character first. -/
def splitFrom (p : Char → Bool) (part : List Char) : List Char → List (List Char)
  | [] => [part.reverse]
  | c :: cs => if p c then part.reverse :: splitFrom p [] cs else splitFrom p (c :: part) cs

/-- The parts of a text between the characters that `p` accepts. There is always one part. -/
def splitWhere (p : Char → Bool) (cs : List Char) : List (List Char) := splitFrom p [] cs

/-- The text before and the text behind the first `c`, if there is one. -/
def cutAt (c : Char) : List Char → Option (List Char × List Char)
  | [] => none
  | d :: ds =>
    if d = c then some ([], ds) else (cutAt c ds).map fun (before, behind) => (d :: before, behind)

/-- The text before the ending `tail`, if it ends so. -/
def dropTail? (tail s : String) : Option String :=
  if tail.toList.isSuffixOf s.toList then
    some (String.ofList (s.toList.take (s.toList.length - tail.toList.length)))
  else none

/-- The text behind the beginning `head`, if it begins so. -/
def dropHead? (head s : String) : Option String :=
  if head.toList.isPrefixOf s.toList then some (String.ofList (s.toList.drop head.toList.length))
  else none

/-- The parts of a text between the characters `c`. -/
def split (c : Char) (s : String) : List String :=
  (splitWhere (· == c) s.toList).map String.ofList

/-! ### Lines

A text is cut into lines at its newlines. A carriage return just before the newline belongs to the
line end, and a newline at the very end of the text does not open one more line. -/

/-- The line whose characters are given last first, without the carriage return of its line end. -/
def closeLine : List Char → List Char
  | '\r' :: cs => cs.reverse
  | cs => cs.reverse

/-- The lines of a text; `line` holds what was read of the current one, last character first. -/
def linesFrom (line : List Char) : List Char → List (List Char)
  | [] => if line.isEmpty then [] else [line.reverse]
  | '\n' :: cs => closeLine line :: linesFrom [] cs
  | c :: cs => linesFrom (c :: line) cs

/-- The lines of a text, without their ends. -/
def lines (cs : List Char) : List (List Char) := linesFrom [] cs

/-- Each line followed by a newline. -/
def unlines (ls : List (List Char)) : List Char := ls.flatMap (· ++ ['\n'])

end ProofProse.Text
