import ProofProse.Text.Blank
import ProofProse.Token.Lexer

/-! # Comments

A percent sign that no backslash escapes opens a comment, which runs to the end of its line. The
comment takes the line end and the margin of the next line with it, with two exceptions: when the
next line is blank the line end stays, so that the end of a paragraph stays visible, and right
behind a control word one space is left, so that the word does not grow. A comment that the text
ends in leaves nothing. -/

namespace ProofProse.Source

open Lexer (isNameLetter)
open Text (isMargin)

/-- Where the reader of comments stands. A flag `word` tells that the text written so far ends in a
control word. -/
inductive CommentMode where
  /-- In text. -/
  | text (word : Bool)
  /-- Behind a backslash that escapes. -/
  | escape
  /-- Inside a comment. -/
  | comment (word : Bool)
  /-- In the margin of the line behind a comment; its blanks are held, last one first. -/
  | margin (word : Bool) (blanks : List Char)
  deriving DecidableEq

/-- Reads a character of the text. -/
def commentText (word : Bool) (c : Char) : CommentMode × List Char :=
  if c == '\\' then (.escape, [c])
  else if c == '%' then (.comment word, [])
  else (.text (word && isNameLetter c), [c])

/-- Reads one character. -/
def commentStep (mode : CommentMode) (c : Char) : CommentMode × List Char :=
  match mode with
  | .text word => commentText word c
  | .escape => (.text (isNameLetter c), [c])
  | .comment word => if c == '\n' then (.margin word [], []) else (.comment word, [])
  | .margin word blanks =>
    if isMargin c then (.margin word (c :: blanks), [])
    else if c == '\n' then (.text false, '\n' :: blanks.reverse ++ ['\n'])
    else
      let r := commentText false c
      (r.1, if word then ' ' :: r.2 else r.2)

/-- What is left to write at the end of the text. -/
def commentEnd : CommentMode → List Char
  | .margin _ blanks => '\n' :: blanks.reverse
  | _ => []

/-- The reader of comments. -/
def comments : Text.Transducer CommentMode Char Char where
  start := .text false
  step := commentStep
  finish := commentEnd

/-- A text without its comments. -/
def stripComments (cs : List Char) : List Char := comments.run cs

end ProofProse.Source
