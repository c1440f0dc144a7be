import ProofProse.Command.Effect
import ProofProse.Text.Blank
import ProofProse.Text.Letter

/-! # The prose of proofs

The text of a proof is collected in pieces. `Draft.render` joins them, sets placeholders apart from
their neighbours, and leaves one space where any blanks were. `Draft.proof?` is the finished proof:
a draft without text is none, and a text that ends in a letter gets a period. -/

namespace ProofProse

/-- A piece of collected text. -/
inductive Fragment where
  /-- A character. -/
  | char (c : Char)
  /-- Some text. -/
  | text (s : String)
  /-- A word gap. -/
  | space
  /-- A word that stands for something left out. -/
  | placeholder (kind : Placeholder)
  deriving DecidableEq

/-- The characters of a piece. -/
def Fragment.chars : Fragment → List Char
  | char c => [c]
  | text s => s.toList
  | space => [' ']
  | placeholder kind => ' ' :: kind.word.toList ++ [' ']

/-- The text of a proof. -/
structure Proof where
  /-- The text, in one line. -/
  text : String
  deriving DecidableEq

/-- Blanks are collapsed and trimmed off the ends. -/
def normalize (cs : List Char) : List Char := Text.trimBy Text.isBlank (Text.collapseBlanks cs)

/-- The pieces collected so far. -/
structure Draft where
  /-- The pieces, newest first. -/
  newestFirst : List Fragment := []
  deriving DecidableEq

namespace Draft

/-- The pieces in order. -/
def toList (draft : Draft) : List Fragment := draft.newestFirst.reverse

/-- Adds a piece. A gap behind a gap is left out. -/
def push (draft : Draft) (fragment : Fragment) : Draft :=
  match fragment, draft.newestFirst with
  | .space, .space :: _ => draft
  | fragment, fragments => ⟨fragment :: fragments⟩

/-- Whether nothing has been collected. -/
def isEmpty (draft : Draft) : Bool := draft.newestFirst.isEmpty

/-- Whether the draft ends in mathematics and a gap. -/
def endsInMathGap (draft : Draft) : Bool :=
  match draft.newestFirst with
  | .space :: .placeholder .math :: _ => true
  | _ => false

/-- The characters of the text. -/
def renderChars (draft : Draft) : List Char := normalize (draft.toList.flatMap Fragment.chars)

/-- The text. -/
def render (draft : Draft) : String := String.ofList (draft.renderChars)

/-- Closes a text that ends in a letter with a period. -/
def closeSentence (cs : List Char) : List Char :=
  match cs.getLast? with
  | some c => if Text.isAlphabetic c then cs ++ [' ', '.'] else cs
  | none => cs

/-- The finished proof. -/
def proof? (draft : Draft) : Option Proof :=
  match draft.renderChars with
  | [] => none
  | cs => some ⟨String.ofList (closeSentence cs)⟩

end Draft

end ProofProse
