import ProofProse.Encoding.Utf16
import ProofProse.Encoding.Utf8

/-! # Encodings of source files

Decoding a source file never fails. A mark at the beginning tells UTF-8 and the two orders of UTF-16
apart, and what is malformed behind a mark becomes a replacement character. Without a mark the bytes
are taken for UTF-8 if they are well formed, and else for Windows-1252.

Windows-1252 is a code page with one byte per character, in which every byte has a character. The
bytes from 80 to 9F have characters of their own, or none but the control of the same number; all
others stand for the character of the same number. -/

namespace ProofProse.Encoding

/-! ### Windows-1252 -/

namespace Windows1252

/-- The characters of the bytes from 80 on. -/
def upper : List Nat :=
  [0x20AC, 0x81, 0x201A, 0x192, 0x201E, 0x2026, 0x2020, 0x2021, 0x2C6, 0x2030, 0x160, 0x2039, 0x152,
   0x8D, 0x17D, 0x8F, 0x90, 0x2018, 0x2019, 0x201C, 0x201D, 0x2022, 0x2013, 0x2014, 0x2DC, 0x2122,
   0x161, 0x203A, 0x153, 0x9D, 0x17E, 0x178]

/-- The character of a byte. -/
def charOf (byte : UInt8) : Char :=
  let n := byte.toNat
  if n < 0x80 then Char.ofNat n else Char.ofNat (upper.getD (n - 0x80) n)

/-- The characters of some bytes. -/
def decode (bytes : Bytes) : List Char := bytes.map charOf

end Windows1252

/-! ### The encoding of a file -/

/-- The character that stands for what cannot be decoded. -/
def replacement : Char := '\ufffd'

/-- Writes the replacement character for what is missing. -/
def replaceMissing (cs : List (Option Char)) : List Char := cs.map fun c => c.getD replacement

/-- The characters of well-formed or malformed UTF-8. -/
def decodeLossy (bytes : Bytes) : List Char := replaceMissing (Utf8.decode bytes)

/-- The characters of a source file. -/
def decodeChars (bytes : Bytes) : List Char :=
  match bytes with
  | 0xEF :: 0xBB :: 0xBF :: rest => decodeLossy rest
  | 0xFF :: 0xFE :: rest => replaceMissing (Utf16.decode false rest)
  | 0xFE :: 0xFF :: rest => replaceMissing (Utf16.decode true rest)
  | bytes =>
    match Utf8.decode? bytes with
    | some cs => cs
    | none => Windows1252.decode bytes

/-- The text of a source file. -/
def decodeSource (bytes : Bytes) : String := String.ofList (decodeChars bytes)

end ProofProse.Encoding
