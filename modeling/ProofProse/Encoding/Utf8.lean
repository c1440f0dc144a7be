import ProofProse.Text.Transducer

/-! # UTF-8

The decoder of UTF-8 is a transducer from bytes to characters that may be missing: it writes `none`
once for each stretch of bytes that begins a character and cannot be continued, and for each byte
that can begin none. Nothing missing means that the bytes are well formed. -/

namespace ProofProse.Encoding

/-- The bytes of a file. -/
abbrev Bytes := List UInt8

namespace Utf8

/-- A character that has been begun. -/
structure Pending where
  /-- How many bytes are still needed. -/
  needed : Nat
  /-- The value of the bytes read. -/
  value : Nat
  /-- The least next byte. -/
  least : Nat
  /-- The greatest next byte. -/
  greatest : Nat
  deriving DecidableEq

/-- Reads the first byte of a character. -/
def begin (byte : Nat) : Option Pending × List (Option Char) :=
  if byte ≤ 0x7F then (none, [some (Char.ofNat byte)])
  else if 0xC2 ≤ byte ∧ byte ≤ 0xDF then (some ⟨1, byte - 0xC0, 0x80, 0xBF⟩, [])
  else if byte = 0xE0 then (some ⟨2, 0, 0xA0, 0xBF⟩, [])
  else if byte = 0xED then (some ⟨2, 0xD, 0x80, 0x9F⟩, [])
  else if 0xE1 ≤ byte ∧ byte ≤ 0xEF then (some ⟨2, byte - 0xE0, 0x80, 0xBF⟩, [])
  else if byte = 0xF0 then (some ⟨3, 0, 0x90, 0xBF⟩, [])
  else if byte = 0xF4 then (some ⟨3, 4, 0x80, 0x8F⟩, [])
  else if 0xF1 ≤ byte ∧ byte ≤ 0xF3 then (some ⟨3, byte - 0xF0, 0x80, 0xBF⟩, [])
  else (none, [none])

/-- Reads one byte. -/
def step (pending : Option Pending) (byte : UInt8) : Option Pending × List (Option Char) :=
  match pending with
  | none => begin byte.toNat
  | some p =>
    if p.least ≤ byte.toNat ∧ byte.toNat ≤ p.greatest then
      let value := p.value * 64 + (byte.toNat - 0x80)
      if p.needed ≤ 1 then (none, [some (Char.ofNat value)])
      else (some ⟨p.needed - 1, value, 0x80, 0xBF⟩, [])
    else
      let r := begin byte.toNat
      (r.1, none :: r.2)

/-- The decoder. -/
def decoder : Text.Transducer (Option Pending) UInt8 (Option Char) where
  start := none
  step := step
  finish pending := if pending.isSome then [none] else []

/-- The characters of some bytes, those that are missing included. -/
def decode (bytes : Bytes) : List (Option Char) := decoder.run bytes

/-- The characters of well-formed bytes. -/
def decode? (bytes : Bytes) : Option (List Char) := (decode bytes).mapM id

/-- The bytes of a text. -/
def encode (cs : List Char) : Bytes := cs.flatMap String.utf8EncodeChar

end Utf8

/-- The bytes of a text in UTF-8. -/
def ofText (s : String) : Bytes := Utf8.encode s.toList

/-- The text of well-formed bytes in UTF-8. -/
def text? (bytes : Bytes) : Option String := (Utf8.decode? bytes).map String.ofList

end ProofProse.Encoding
