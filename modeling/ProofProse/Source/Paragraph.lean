import ProofProse.Text.Blank
import ProofProse.Text.Transducer

/-! # Paragraphs

Paragraphs are parted by blank lines. A newline, and at least one more newline behind nothing but
spaces and tabs, together with all spaces, tabs and newlines that follow, is replaced by an explicit
paragraph command. -/

namespace ProofProse.Source

open Text (isMargin)

/-- Where the reader of paragraphs stands. -/
inductive ParagraphMode where
  /-- In a line. -/
  | line
  /-- Behind one newline and some spaces and tabs, which are held, last one first. -/
  | newline (blanks : List Char)
  /-- Between two paragraphs. -/
  | gap
  deriving DecidableEq

/-- What is written between two paragraphs. -/
def paragraphMark : List Char := " \\par ".toList

/-- The characters held by a mode, written as they came or as the mark of a paragraph. -/
def paragraphEnd : ParagraphMode → List Char
  | .line => []
  | .newline blanks => '\n' :: blanks.reverse
  | .gap => paragraphMark

/-- Reads one character. -/
def paragraphStep (mode : ParagraphMode) (c : Char) : ParagraphMode × List Char :=
  match mode with
  | .line => if c == '\n' then (.newline [], []) else (.line, [c])
  | .newline blanks =>
    if isMargin c then (.newline (c :: blanks), [])
    else if c == '\n' then (.gap, [])
    else (.line, paragraphEnd mode ++ [c])
  | .gap => if isMargin c || c == '\n' then (.gap, []) else (.line, paragraphEnd mode ++ [c])

/-- The reader of paragraphs. -/
def paragraphs : Text.Transducer ParagraphMode Char Char where
  start := .line
  step := paragraphStep
  finish := paragraphEnd

/-- A text whose paragraphs are parted by a command. -/
def markParagraphs (cs : List Char) : List Char := paragraphs.run cs

end ProofProse.Source
