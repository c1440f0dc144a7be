import ProofProse.Definition.Dictionary

/-! # Warnings

A warning tells of something that was passed over while a file was read. Reading goes on. -/

namespace ProofProse

/-- Something that was passed over. -/
inductive Warning where
  /-- No file was found for an inclusion. -/
  | includeMissing (target including : String)
  /-- A file could not be read. -/
  | includeUnreadable (path message : String)
  /-- An inclusion stands too deep. -/
  | includeDepthExceeded (target : String) (depth : Nat)
  /-- A definition was refused. -/
  | definitionRejected (name : String) (reason : Rejection)
  /-- A definition of a proof environment. -/
  | proofRedefinitionIgnored (name : String)
  /-- A call that does not fit its definition. -/
  | expansionFailed (name : String)
  deriving DecidableEq

namespace Warning

/-- The message of a warning. -/
def message : Warning → String
  | includeMissing target including =>
    "Cannot find include target '" ++ target ++ "' (included from " ++ including ++ ")"
  | includeUnreadable path message => "Cannot read '" ++ path ++ "': " ++ message
  | includeDepthExceeded target depth =>
    "Include '" ++ target ++ "' ignored: nesting depth " ++ toString depth ++ " reached"
  | definitionRejected name .frozen =>
    "Definition of '\\" ++ name ++ "' ignored: the name was renamed with \\let"
  | definitionRejected name .protectedArity =>
    "Definition of '\\" ++ name ++ "' ignored: it would hide a reference command"
  | proofRedefinitionIgnored name => "Redefinition of proof environment '" ++ name ++ "' ignored"
  | expansionFailed name =>
    "Use of '\\" ++ name ++ "' does not match its definition; treated as a no-op"

/-- The name of the kind of a warning. -/
def kindName : Warning → String
  | includeMissing _ _ => "IncludeMissing"
  | includeUnreadable _ _ => "IncludeUnreadable"
  | includeDepthExceeded _ _ => "IncludeDepthExceeded"
  | definitionRejected _ _ => "DefinitionRejected"
  | proofRedefinitionIgnored _ => "ProofRedefinitionIgnored"
  | expansionFailed _ => "ExpansionFailed"

end Warning

end ProofProse
