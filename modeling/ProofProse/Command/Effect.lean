import ProofProse.Command.Signature

/-! # Effects of commands

What a known command does with its operands and to the text of the proof it stands in. -/

namespace ProofProse

/-- What a placeholder stands for. Five words stand in the text of a proof for what is left out of
it. -/
inductive Placeholder where
  /-- Mathematics. -/
  | math
  /-- A reference to a label. -/
  | reference
  /-- A citation. -/
  | citation
  /-- The beginning of a step, such as an item or a heading. -/
  | step
  /-- A name that the source does not spell out. -/
  | name
  deriving DecidableEq

/-- The word of a placeholder. -/
def Placeholder.word : Placeholder → String
  | math => "MATH"
  | reference => "REF"
  | citation => "CITE"
  | step => "CASE:"
  | name => "NAME"

/-- The forms in which names, environments and flags are defined. -/
inductive DefinitionKind where
  /-- A command with a number of parameters and a body. -/
  | newCommand
  /-- The same, unless the name is defined already. -/
  | provideCommand
  /-- A command with a parameter text. -/
  | parameterText
  /-- A second name for a token. -/
  | copy
  /-- An environment with what it begins and ends with. -/
  | newEnvironment
  /-- The same, unless the environment is defined already. -/
  | provideEnvironment
  /-- A flag, named by its test. -/
  | newTest
  /-- A flag, named by itself. -/
  | newFlag
  /-- The name of a mathematical operator. -/
  | mathOperator
  /-- A pair of delimiters around an argument. -/
  | pairedDelimiter
  deriving DecidableEq

/-- Commands that choose between two arguments, and commands that set what they test. -/
inductive ChoiceKind where
  /-- By a condition of tests joined with and, or, and not. -/
  | ifThenElse
  /-- By whether two texts are the same. -/
  | ifEqual
  /-- By whether a text is empty. -/
  | ifEmpty
  /-- By a flag. -/
  | ifFlag
  /-- Sets a flag to the value given. -/
  | setFlagTo
  /-- Sets a flag to the value of the command. -/
  | setFlag (value : Bool)
  /-- By whether a command is defined, given by its name or as itself; the choice is the first
  argument when the answer is `defined`. -/
  | ifDefined (byName defined : Bool)
  /-- By a test that is not made; the choice is always the second argument. -/
  | untested (signature : Signature)
  deriving DecidableEq

/-- Commands that name files. -/
inductive InclusionKind where
  /-- A source file. -/
  | input
  /-- A list of packages. -/
  | package
  /-- A class, which is never read. -/
  | documentClass
  deriving DecidableEq

/-- What a command does. -/
inductive Effect where
  /-- Takes its operands and leaves nothing. -/
  | silent (signature : Signature)
  /-- Takes its operands and leaves a placeholder. -/
  | placeholder (kind : Placeholder) (signature : Signature)
  /-- Leaves a text. -/
  | literal (text : String)
  /-- Takes its operands and leaves a word gap. -/
  | gap (signature : Signature)
  /-- Puts a mark on its argument. -/
  | accent (mark : Char)
  /-- Defines something. -/
  | definition (kind : DefinitionKind)
  /-- Chooses between arguments or sets a flag. -/
  | choice (kind : ChoiceKind)
  /-- Names a file. -/
  | inclusion (kind : InclusionKind)
  /-- Text inside mathematics; outside, the command does nothing. -/
  | mathText
  /-- Makes sense in mathematics only. -/
  | mathOnly
  deriving DecidableEq

end ProofProse
