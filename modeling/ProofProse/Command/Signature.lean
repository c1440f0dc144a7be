/-! # Signatures

The signature of a command lists the operands that the command takes, in order. Each kind of
operand has a letter, by which signatures are shown. -/

namespace ProofProse

/-- One operand of a command. -/
inductive Operand where
  /-- A star right behind the command, if there is one. -/
  | star
  /-- An argument in brackets, if there is one. -/
  | optional
  /-- A group or a single token. -/
  | mandatory
  /-- A dimension, with its stretch and shrink. -/
  | dimension
  /-- A number. -/
  | number
  /-- An equals sign, if there is one. -/
  | equals
  deriving DecidableEq

/-- The operands of a command, in order. -/
abbrev Signature := List Operand

/-- The letter of an operand. -/
def Operand.letter : Operand → Char
  | star => 's'
  | optional => 'o'
  | mandatory => 'm'
  | dimension => 'd'
  | number => 'n'
  | equals => '='

/-- A signature as a word of letters. -/
def Signature.letters (signature : Signature) : String :=
  String.ofList (signature.map Operand.letter)

/-- How many operands must be given. -/
def Signature.mandatoryCount (signature : Signature) : Nat := signature.count .mandatory

end ProofProse
