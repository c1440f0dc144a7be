import ProofProse.Definition.Dictionary
import ProofProse.Stream.Group

/-! # Conditions

A condition is a row of tests joined by *and* and *or*, each of which may be negated. The tests are
joined from left to right; what is no test and no joint says nothing. -/

namespace ProofProse

/-- What a condition has come to so far. -/
structure Condition where
  /-- The value of the tests so far, if there was one. -/
  value : Option Bool := none
  /-- Whether the next test is joined by *and*. -/
  conjunction : Bool := true
  /-- Whether the next test is negated. -/
  negated : Bool := false
  deriving DecidableEq

namespace Condition

/-- Joins a test. -/
def join (condition : Condition) (test : Bool) : Condition :=
  let test := test != condition.negated
  { condition with
    negated := false
    value := some (match condition.value with
      | none => test
      | some value => if condition.conjunction then value && test else value || test) }

/-- Reads one control sequence of a condition, with the tokens behind it. -/
def step (dictionary : Dictionary) (condition : Condition) (name : String) (rest : List Token) :
    Condition × List Token :=
  match name with
  | "not" | "NOT" => ({ condition with negated := !condition.negated }, rest)
  | "and" | "AND" => ({ condition with conjunction := true }, rest)
  | "or" | "OR" => ({ condition with conjunction := false }, rest)
  | "equal" =>
    let left := readGroup 0 rest
    let right := readGroup 0 left.rest
    (condition.join (plainText left.result == plainText right.result), right.rest)
  | "boolean" =>
    let flag := readGroup 0 rest
    (condition.join ((dictionary.flag? (plainText flag.result)).getD false), flag.rest)
  | "isundefined" =>
    let target := readGroup 0 rest
    let undefined :=
      match firstControl? target.result with
      | some name => !dictionary.knows name
      | none => true
    (condition.join undefined, target.rest)
  | _ => (condition.join false, rest)

/-- Reads on in a condition, at most `fuel` tokens. -/
def readFrom (dictionary : Dictionary) : Nat → Condition → List Token → Condition
  | fuel + 1, condition, .control name :: rest =>
    let r := condition.step dictionary name rest
    readFrom dictionary fuel r.1 r.2
  | fuel + 1, condition, _ :: rest => readFrom dictionary fuel condition rest
  | _, condition, _ => condition

/-- The value of a condition. A condition without a test is false. -/
def evaluate (dictionary : Dictionary) (tokens : List Token) : Bool :=
  (readFrom dictionary tokens.length {} tokens).value.getD false

end Condition

end ProofProse
