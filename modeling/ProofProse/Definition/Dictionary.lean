import Std.Data.HashMap
import ProofProse.Command.Table
import ProofProse.Definition

/-! # Dictionaries

A dictionary holds what a source has defined so far: names, environments, and flags. A name can be
frozen, so that no later definition of it counts. A definition that would give a reference, citation
or name command the parameters it has already is refused as well. -/

namespace ProofProse

/-- What a dictionary says of a name. -/
inductive Entry where
  /-- The name stands for something. -/
  | defined (definition : Definition)
  /-- The name means what it meant before, and is not to be defined. -/
  | frozen
  deriving DecidableEq

/-- Why a definition was refused. -/
inductive Rejection where
  /-- The name is frozen. -/
  | frozen
  /-- The definition would hide a command. -/
  | protectedArity
  deriving DecidableEq

/-- The definitions of a source. -/
structure Dictionary where
  /-- What is said of names. -/
  names : Std.HashMap String Entry := {}
  /-- The environments. -/
  environments : Std.HashMap String EnvironmentDefinition := {}
  /-- The flags. -/
  flags : Std.HashMap String Bool := {}

namespace Dictionary

/-! ### Names -/

/-- The definition of a name. -/
def find? (dictionary : Dictionary) (name : String) : Option Definition :=
  match dictionary.names[name]? with
  | some (.defined definition) => some definition
  | _ => none

/-- Whether anything is said of a name. -/
def knows (dictionary : Dictionary) (name : String) : Bool := dictionary.names.contains name

/-- Whether a name is frozen. -/
def isFrozen (dictionary : Dictionary) (name : String) : Bool :=
  dictionary.names[name]? == some .frozen

/-- Says something of a name. -/
def enter (dictionary : Dictionary) (name : String) (entry : Entry) : Dictionary :=
  { dictionary with names := dictionary.names.insert name entry }

/-- Freezes a name. -/
def freeze (dictionary : Dictionary) (name : String) : Dictionary := dictionary.enter name .frozen

/-- Defines a name, unless the definition is refused. -/
def define (dictionary : Dictionary) (name : String) (definition : Definition) :
    Except Rejection Dictionary :=
  if dictionary.isFrozen name then .error .frozen
  else if protectedArity? name == some definition.arity then .error .protectedArity
  else .ok (dictionary.enter name (.defined definition))

/-- Gives a command with a meaning of its own a second name. The command is frozen, so that a later
definition of it by its second name does not go round in circles. -/
def renameBuiltin (dictionary : Dictionary) (new old : String) : Except Rejection Dictionary :=
  if new == old then .ok dictionary
  else (dictionary.define new (.alias [.control old])).map (·.freeze old)

/-! ### Environments -/

/-- The definition of an environment. -/
def environment? (dictionary : Dictionary) (name : String) : Option EnvironmentDefinition :=
  dictionary.environments[name]?

/-- Whether an environment is defined. -/
def hasEnvironment (dictionary : Dictionary) (name : String) : Bool :=
  dictionary.environments.contains name

/-- Defines an environment. -/
def defineEnvironment (dictionary : Dictionary) (name : String)
    (definition : EnvironmentDefinition) : Dictionary :=
  { dictionary with environments := dictionary.environments.insert name definition }

/-! ### Flags -/

/-- The value of a flag. -/
def flag? (dictionary : Dictionary) (flag : String) : Option Bool := dictionary.flags[flag]?

/-- Declares a flag. A new flag is false, and an old one keeps its value. -/
def declareFlag (dictionary : Dictionary) (flag : String) : Dictionary :=
  { dictionary with flags := dictionary.flags.insertIfNew flag false }

/-- Sets a flag that is declared. The answer tells whether it is. -/
def setFlag (dictionary : Dictionary) (flag : String) (value : Bool) : Dictionary × Bool :=
  if dictionary.flags.contains flag then
    ({ dictionary with flags := dictionary.flags.insert flag value }, true)
  else (dictionary, false)

/-- The flag that a command tests. -/
def testedFlag? (dictionary : Dictionary) (name : String) : Option String :=
  (Text.dropHead? "if" name).filter dictionary.flags.contains

/-- The flag that a command with the given ending sets. -/
def flagWithEnding? (dictionary : Dictionary) (ending name : String) : Option String :=
  (Text.dropTail? ending name).filter dictionary.flags.contains

/-- The flag that a command sets, and the value it gives. -/
def flagSetting? (dictionary : Dictionary) (name : String) : Option (String × Bool) :=
  match dictionary.flagWithEnding? "true" name with
  | some flag => some (flag, true)
  | none => (dictionary.flagWithEnding? "false" name).map fun flag => (flag, false)

/-- Whether a name opens a conditional that needs a closing `fi`. -/
def opensConditional (dictionary : Dictionary) (name : String) : Bool :=
  (dictionary.testedFlag? name).isSome || (isBareTest name && (dictionary.find? name).isNone)

end Dictionary

end ProofProse
