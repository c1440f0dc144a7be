/-! # Reports in JSON

The values that reports are made of, and their text: two spaces more for each level, one member or
field to a line, and empty lists and records without a line of their own. -/

namespace ProofProse

/-- A value of a report. -/
inductive Json where
  /-- A number. -/
  | number (n : Nat)
  /-- A text. -/
  | text (s : String)
  /-- A list. -/
  | list (members : List Json)
  /-- A record. -/
  | record (fields : List (String × Json))

namespace Json

/-- The four hexadecimal digits of a number. -/
def fourDigits (n : Nat) : List Char :=
  let digits := Nat.toDigits 16 n
  List.replicate (4 - digits.length) '0' ++ digits

/-- A character of a text. Quotes, backslashes and control characters are escaped. -/
def escape (c : Char) : List Char :=
  match c with
  | '"' => ['\\', '"']
  | '\\' => ['\\', '\\']
  | '\n' => ['\\', 'n']
  | '\r' => ['\\', 'r']
  | '\t' => ['\\', 't']
  | '\x08' => ['\\', 'b']
  | '\x0c' => ['\\', 'f']
  | c => if c.toNat < 0x20 then ['\\', 'u'] ++ fourDigits c.toNat else [c]

/-- A text between quotes. -/
def quoted (s : String) : String := String.ofList ('"' :: s.toList.flatMap escape ++ ['"'])

/-- The beginning of a line at a level. -/
def margin (level : Nat) : String := "".pushn ' ' (2 * level)

/-- Lines between two brackets. -/
def enclosed (opening closing : String) (level : Nat) (lines : List String) : String :=
  if lines.isEmpty then opening ++ closing
  else
    opening ++ "\n" ++ String.intercalate ",\n" (lines.map (margin (level + 1) ++ ·)) ++ "\n" ++
      margin level ++ closing

mutual

/-- The text of a value at a level. -/
def printAt : Nat → Json → String
  | _, number n => toString n
  | _, text s => quoted s
  | level, list members => enclosed "[" "]" level (memberLines (level + 1) members)
  | level, record fields => enclosed "\x7b" "\x7d" level (fieldLines (level + 1) fields)

/-- The texts of the members of a list. -/
def memberLines : Nat → List Json → List String
  | _, [] => []
  | level, v :: members => printAt level v :: memberLines level members

/-- The texts of the fields of a record, each behind its name. -/
def fieldLines : Nat → List (String × Json) → List String
  | _, [] => []
  | level, (name, v) :: fields =>
    (quoted name ++ ": " ++ printAt level v) :: fieldLines level fields

end

/-- The text of a value. -/
def print (value : Json) : String := printAt 0 value

end Json

end ProofProse
