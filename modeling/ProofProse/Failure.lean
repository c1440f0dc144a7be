import ProofProse.Text.Quoted

/-! # Failures

Reading can be interrupted at two depths. A `DropReason` gives up the proof being read, and reading
goes on behind it. A `Failure` gives up the whole file. Both have a message, and a written form that
names the failure and its fields. -/

namespace ProofProse

/-- Why a file was given up. -/
inductive Failure where
  /-- A file could not be read or written. -/
  | io (message : String)
  /-- Mathematics that does not close in time. -/
  | runawayMath (limit : Nat)
  /-- An environment or proof that does not close in time. -/
  | runawayEnvironment (name : String) (limit : Nat)
  /-- A conditional that does not close in time. -/
  | runawayConditional (limit : Nat)
  /-- Too many tokens in the file as a whole. -/
  | tokenBudgetExceeded (limit : Nat)
  /-- Skipped spans inside one another too deep. -/
  | nestingTooDeep (limit : Nat)
  /-- The source ends inside mathematics. -/
  | unterminatedMath
  /-- The source or document ends where something is open. -/
  | unexpectedEnd (context : String)
  /-- An inclusion that makes no sense. -/
  | inclusion (path message : String)
  /-- Something that cannot happen. -/
  | internal (message : String)
  deriving DecidableEq

/-- Why a proof was dropped. -/
inductive DropReason where
  /-- A command of mathematics stood in prose. -/
  | mathOutsideMath (command : String)
  /-- An argument ran into the end of its proof. -/
  | runawayArgument
  /-- The source ended inside an argument. -/
  | endOfInput
  deriving DecidableEq

/-- What stops the reading of a proof or of a file. -/
inductive Interrupt where
  /-- The proof is dropped. -/
  | drop (reason : DropReason)
  /-- The file is given up. -/
  | fatal (failure : Failure)
  deriving DecidableEq

namespace Failure

/-- The message of a failure. -/
def message : Failure → String
  | io message => "IO error: " ++ message
  | runawayMath limit => "Runaway math: no closer within " ++ toString limit ++ " tokens"
  | runawayEnvironment name limit =>
    "Runaway environment '" ++ name ++ "': no end within " ++ toString limit ++ " tokens"
  | runawayConditional limit =>
    "Runaway conditional: no \\fi within " ++ toString limit ++ " tokens"
  | tokenBudgetExceeded limit => "Token budget of " ++ toString limit ++ " exceeded"
  | nestingTooDeep limit =>
    "Math or skipped environments nested deeper than " ++ toString limit
  | unterminatedMath => "Unterminated math at end of input"
  | unexpectedEnd context => "Unexpected end of input in " ++ context
  | inclusion path message => "Include error for '" ++ path ++ "': " ++ message
  | internal message => "Internal error: " ++ message

/-- The name of the kind of a failure. -/
def kindName : Failure → String
  | io _ => "Io"
  | runawayMath _ => "RunawayMath"
  | runawayEnvironment _ _ => "RunawayEnvironment"
  | runawayConditional _ => "RunawayConditional"
  | tokenBudgetExceeded _ => "TokenBudgetExceeded"
  | nestingTooDeep _ => "NestingTooDeep"
  | unterminatedMath => "UnterminatedMath"
  | unexpectedEnd _ => "UnexpectedEnd"
  | inclusion _ _ => "Include"
  | internal _ => "Internal"

/-- The fields of a failure, with their names, as they are written. -/
def fields : Failure → List (String × String)
  | io message => [("message", Text.quote message)]
  | runawayMath limit => [("limit", toString limit)]
  | runawayEnvironment name limit => [("name", Text.quote name), ("limit", toString limit)]
  | runawayConditional limit => [("limit", toString limit)]
  | tokenBudgetExceeded limit => [("limit", toString limit)]
  | nestingTooDeep limit => [("limit", toString limit)]
  | unterminatedMath => []
  | unexpectedEnd context => [("context", Text.quote context)]
  | inclusion path message => [("path", Text.quote path), ("message", Text.quote message)]
  | internal message => [("message", Text.quote message)]

end Failure

/-- A kind with its fields between braces, or the kind alone when it has none. -/
def writtenRecord (kind : String) (fields : List (String × String)) : String :=
  if fields.isEmpty then kind
  else
    kind ++ " \x7b " ++ String.intercalate ", " (fields.map fun (name, value) => name ++ ": " ++ value)
      ++ " \x7d"

/-- The written form of a failure. -/
def Failure.written (failure : Failure) : String := writtenRecord failure.kindName failure.fields

namespace DropReason

/-- The message of a reason. -/
def message : DropReason → String
  | mathOutsideMath command => "math-only command \\" ++ command ++ " outside math"
  | runawayArgument => "runaway argument"
  | endOfInput => "end of input inside an argument"

/-- The name of the kind of a reason. -/
def kindName : DropReason → String
  | mathOutsideMath _ => "MathOutsideMath"
  | runawayArgument => "RunawayArgument"
  | endOfInput => "EndOfInput"

/-- The fields of a reason, with their names, as they are written. -/
def fields : DropReason → List (String × String)
  | mathOutsideMath command => [("command", Text.quote command)]
  | _ => []

/-- The written form of a reason. -/
def written (reason : DropReason) : String := writtenRecord reason.kindName reason.fields

end DropReason

/-- The message of an interrupt. -/
def Interrupt.message : Interrupt → String
  | drop reason => "proof skipped: " ++ reason.message
  | fatal failure => failure.message

end ProofProse
