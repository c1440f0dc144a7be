import ProofProse.Source.Comment
import ProofProse.Source.Correction
import ProofProse.Source.Paragraph
import ProofProse.Text.Transducer
import ProofProse.Token.Lexer

/-! # Sources

A source text becomes tokens in five steps: its line ends are unified, comments are stripped,
corrections for its file are made, paragraphs are marked, and the lexer reads the result. Where line
ends are unified, a carriage return with a newline behind it, and a carriage return alone, both become
a newline. -/

namespace ProofProse.Source

/-- Writes a newline for each line end. The state tells that a carriage return was the last
character read, so that a newline now is part of a line end already written. -/
def lineEnds : Text.Transducer Bool Char Char where
  start := false
  step returned c :=
    if c == '\r' then (true, ['\n'])
    else if returned && c == '\n' then (false, [])
    else (false, [c])
  finish _ := []

/-- A text whose lines end in a newline alone. -/
def unifyLineEnds (cs : List Char) : List Char := lineEnds.run cs

/-- All that is done to a text before the lexer reads it. -/
def prepare (text path : String) (corrections : List Correction) : List Char :=
  markParagraphs (Correction.applyAll corrections path (stripComments (unifyLineEnds text.toList)))

/-- The tokens of a source text. -/
def tokens (text path : String) (corrections : List Correction) : List Token :=
  tokenize (prepare text path corrections)

end ProofProse.Source
