import ProofProse.Encoding.Utf8

/-! # UTF-16

The decoder of UTF-16, for both orders of bytes, writes `none` for each code unit of a pair that
lacks its other half, and once for whatever is left unfinished at the end. -/

namespace ProofProse.Encoding.Utf16

/-- What has been read of a character. -/
structure Pending where
  /-- The first byte of a code unit. -/
  byte : Option UInt8
  /-- The first code unit of a pair. -/
  lead : Option Nat
  deriving DecidableEq

/-- The code unit of two bytes, in the order they stand. -/
def codeUnit (bigFirst : Bool) (first second : UInt8) : Nat :=
  if bigFirst then first.toNat * 256 + second.toNat else second.toNat * 256 + first.toNat

/-- The first half of a pair. -/
def isLead (u : Nat) : Bool := 0xD800 ≤ u && u ≤ 0xDBFF

/-- The second half of a pair. -/
def isTrail (u : Nat) : Bool := 0xDC00 ≤ u && u ≤ 0xDFFF

/-- The character of a pair. -/
def pair (lead trail : Nat) : Char :=
  Char.ofNat (0x10000 + (lead - 0xD800) * 0x400 + (trail - 0xDC00))

/-- Reads a code unit when none is pending. -/
def begin (u : Nat) : Pending × List (Option Char) :=
  if isLead u then (⟨none, some u⟩, [])
  else if isTrail u then (⟨none, none⟩, [none])
  else (⟨none, none⟩, [some (Char.ofNat u)])

/-- Reads one byte. -/
def step (bigFirst : Bool) (pending : Pending) (byte : UInt8) : Pending × List (Option Char) :=
  match pending.byte with
  | none => (⟨some byte, pending.lead⟩, [])
  | some first =>
    let u := codeUnit bigFirst first byte
    match pending.lead with
    | none => begin u
    | some lead =>
      if isTrail u then (⟨none, none⟩, [some (pair lead u)])
      else
        let r := begin u
        (r.1, none :: r.2)

/-- The decoder. -/
def decoder (bigFirst : Bool) : Text.Transducer Pending UInt8 (Option Char) where
  start := ⟨none, none⟩
  step := step bigFirst
  finish pending := if pending.byte.isSome || pending.lead.isSome then [none] else []

/-- The characters of some bytes, those that are missing included. -/
def decode (bigFirst : Bool) (bytes : Bytes) : List (Option Char) := (decoder bigFirst).run bytes

/-- The two bytes of a code unit. -/
def unitBytes (bigFirst : Bool) (u : Nat) : Bytes :=
  if bigFirst then [UInt8.ofNat (u / 256), UInt8.ofNat (u % 256)]
  else [UInt8.ofNat (u % 256), UInt8.ofNat (u / 256)]

/-- The code units of a character. -/
def codeUnits (c : Char) : List Nat :=
  if c.toNat < 0x10000 then [c.toNat]
  else [0xD800 + (c.toNat - 0x10000) / 0x400, 0xDC00 + (c.toNat - 0x10000) % 0x400]

/-- The bytes of a text. -/
def encode (bigFirst : Bool) (cs : List Char) : Bytes :=
  cs.flatMap fun c => (codeUnits c).flatMap (unitBytes bigFirst)

end ProofProse.Encoding.Utf16
