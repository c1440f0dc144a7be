import Std.Data.HashMap

/-! # Structural commands

Some commands steer the reading itself and take precedence over every definition. Here they are
sorted by what they do. -/

namespace ProofProse

/-- What a structural command does. -/
inductive Structural where
  /-- Opens an environment. -/
  | openEnvironment
  /-- Closes an environment. -/
  | closeEnvironment
  /-- Opens mathematics in a line. -/
  | openInline
  /-- Opens displayed mathematics. -/
  | openDisplay
  /-- Ends the branch of a conditional that was taken. -/
  | endBranch
  /-- Opens a proof. -/
  | openProof
  /-- Closes a proof. -/
  | closeProof
  /-- Ends the document. -/
  | endDocument
  /-- Ends the current file. -/
  | endFile
  /-- Opens verbatim text in a line. -/
  | verbatim
  /-- Makes a control sequence out of the tokens that follow. -/
  | makeName
  /-- Takes one token. -/
  | takeToken
  /-- Opens code in another language. -/
  | openCode
  /-- Does nothing. -/
  | nothing
  deriving DecidableEq

namespace Structural

/-- The structural commands. -/
def entries : List (String × Structural) :=
  [("begin", openEnvironment), ("end", closeEnvironment), ("(", openInline), (")", nothing),
   ("[", openDisplay), ("]", nothing), ("else", endBranch), ("fi", nothing), ("or", endBranch),
   ("proof", openProof), ("endproof", closeProof), ("enddocument", endDocument),
   ("bye", endDocument), ("endinput", endFile), ("verb", verbatim), ("csname", makeName),
   ("endcsname", nothing), ("string", takeToken), ("meaning", takeToken), ("the", takeToken),
   ("noexpand", takeToken), ("futurelet", takeToken), ("expandafter", nothing),
   ("global", nothing), ("long", nothing), ("protected", nothing), ("outer", nothing),
   ("relax", nothing), ("makeatletter", nothing), ("makeatother", nothing),
   ("ExplSyntaxOn", openCode), ("ExplSyntaxOff", nothing)]

/-- The structural commands, indexed by name. -/
def index : Std.HashMap String Structural := Std.HashMap.ofList entries

/-- What a name does if it is structural. -/
def ofName? (name : String) : Option Structural := index[name]?

end Structural

/-- The command that closes code in another language. -/
def codeEnd : String := "ExplSyntaxOff"

end ProofProse
