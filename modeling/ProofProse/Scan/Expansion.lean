import ProofProse.Scan.Argument

/-! # Calls of definitions

A call is replaced by what it stands for, which is then read like any other text. A call that does
not fit its definition is passed over with a warning. -/

namespace ProofProse.Scan

/-- Reads the tokens that a call must begin with. When another token is met, all that was read goes
back. -/
def leadFrom (seen : List Token) : List Token → Scan Bool
  | [] => return true
  | expected :: lead => do
    match ← next with
    | none =>
      pushBack seen.reverse
      return false
    | some t =>
      if t = expected then leadFrom (t :: seen) lead
      else
        pushBack (t :: seen).reverse
        return false

/-- Reads an argument up to its delimiter, if the delimiter is found. -/
def delimited (delimiter : List Token) : Scan (Option (List Token)) := do
  match ← take fun _ => readDelimited delimiter with
  | .found content => return some content
  | .lost => return none
  | .ended => endOfTokens "delimited argument"

/-- Reads the argument of a parameter. -/
def parameterArgument (delimiter : List Token) : Scan (Option (List Token)) :=
  if delimiter.isEmpty then return some (← argument) else delimited delimiter

/-- Reads the arguments of parameters, in order; `arguments` holds those before, last one first. -/
def argumentsFrom (arguments : List (List Token)) :
    List (List Token) → Scan (Option (List (List Token)))
  | [] => return some arguments.reverse
  | delimiter :: delimiters => do
    match ← parameterArgument delimiter with
    | none => return none
    | some content => argumentsFrom (content :: arguments) delimiters

/-- Reads the arguments of a call. -/
def callArguments (definition : Definition) : Scan (Option (List (List Token))) := do
  match definition.fallback, definition.delimiters with
  | some fallback, _ :: delimiters =>
    let first := (← optionalArgument).getD fallback
    argumentsFrom [first] delimiters
  | _, delimiters => argumentsFrom [] delimiters

/-- Reads a call of `name` and finds what it stands for, if it fits the definition. -/
def expansion? (name : String) (definition : Definition) : Scan (Option (List Token)) := do
  if ← leadFrom [] definition.lead then
    return (← callArguments definition).map (definition.expansion name)
  else return none

/-- Replaces a call by what it stands for. -/
def expand (name : String) (definition : Definition) : Scan Unit := do
  match ← expansion? name definition with
  | some tokens => pushBack tokens
  | none => warn (.expansionFailed name)

end ProofProse.Scan
