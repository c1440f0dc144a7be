import ProofProse.Text.Quoted.Tables

/-! # Quoted texts

A quoted text stands between double quotes. Inside, a double quote and a backslash are written
behind a backslash, newline, carriage return, tab and the zero character by a letter or digit behind
a backslash, and a character without a visible form by its number in hexadecimal. A single quote
stands for itself. -/

namespace ProofProse.Text

/-- The hexadecimal digits of a number, in small letters and without leading zeros. -/
def hexDigits (n : Nat) : List Char := Nat.toDigits 16 n

/-- A character as it is written between quotes. -/
def quoteChar (c : Char) : List Char :=
  match c with
  | '"' => ['\\', '"']
  | '\\' => ['\\', '\\']
  | '\n' => ['\\', 'n']
  | '\r' => ['\\', 'r']
  | '\t' => ['\\', 't']
  | '\x00' => ['\\', '0']
  | c =>
    if extendingBounds.has c || invisibleBounds.has c then
      ['\\', 'u', '\x7b'] ++ hexDigits c.toNat ++ ['\x7d']
    else [c]

/-- A text between quotes. -/
def quote (s : String) : String :=
  String.ofList ('"' :: s.toList.flatMap quoteChar ++ ['"'])

end ProofProse.Text
