import ProofProse.Token

/-! # Definitions

A definition tells how a name is called and what a call stands for. In a call the tokens of `lead`
come first, and then one argument per parameter: an argument without a delimiter is a group or a
single token, one with a delimiter goes up to it. With a `fallback` the first argument stands in
brackets and may be left out.

`Definition.expansion` is what a call stands for. The name of the definition is made inert in it, so
that a definition cannot call itself. -/

namespace ProofProse

/-- What a name stands for and how it is called. -/
structure Definition where
  /-- The tokens that must follow the name. -/
  lead : List Token := []
  /-- The delimiter behind each argument; an empty one delimits nothing. -/
  delimiters : List (List Token)
  /-- What the first argument is when it is left out. -/
  fallback : Option (List Token) := none
  /-- What a call stands for. -/
  body : List Token
  deriving DecidableEq

namespace Definition

/-- A definition with `n` parameters. -/
def simple (n : Nat) (body : List Token) : Definition where
  delimiters := List.replicate n []
  body := body

/-- A definition with `n` parameters, at least one, the first of which may be left out. -/
def withFallback (n : Nat) (fallback body : List Token) : Definition where
  delimiters := List.replicate (max n 1) []
  fallback := some fallback
  body := body

/-- A definition with `n` parameters and perhaps a fallback. -/
def ofOptional (n : Nat) (fallback : Option (List Token)) (body : List Token) : Definition :=
  match fallback with
  | some fallback => withFallback n fallback body
  | none => simple n body

/-- A name for some tokens. -/
def «alias» (tokens : List Token) : Definition := simple 0 tokens

/-- The number of parameters. -/
def arity (definition : Definition) : Nat := definition.delimiters.length

/-! ### Expansion -/

/-- A token in the expansion of `name`. -/
def inertIn (name : String) : Token → Token
  | .control n => if n == name then .inert n else .control n
  | t => t

/-- The argument with a number, counted from one; an argument that does not exist is empty. -/
def argument (arguments : List (List Token)) : Nat → List Token
  | 0 => []
  | n + 1 => arguments.getD n []

/-- What a token of the body stands for. -/
def expandToken (name : String) (arguments : List (List Token)) : Token → List Token
  | .parameter n => (argument arguments n).map (inertIn name)
  | .deferred n => [.parameter n]
  | t => [inertIn name t]

/-- A body with its parameters replaced by arguments. -/
def substitute (name : String) (body : List Token) (arguments : List (List Token)) : List Token :=
  body.flatMap (expandToken name arguments)

/-- What a call of `name` stands for. -/
def expansion (definition : Definition) (name : String) (arguments : List (List Token)) :
    List Token :=
  substitute name definition.body arguments

end Definition

/-- An environment of the source: how it is called, and what its end stands for. -/
structure EnvironmentDefinition where
  /-- The beginning, called with the name of the environment. -/
  opening : Definition
  /-- The end. -/
  closing : List Token
  deriving DecidableEq

end ProofProse
