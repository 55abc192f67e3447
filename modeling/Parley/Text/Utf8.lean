import Parley.Fault

/-!
# UTF-8

Text as bytes and back. Decoding reports the first bytes that are no text, with the reason.
-/

namespace Parley.Text

/-- The bytes of a text. -/
def utf8 (s : String) : List UInt8 :=
  s.toUTF8.toList

/-- The number of bytes that follow a first byte, with its bits and the range of the second byte;
`none` for bytes that begin nothing. -/
def leadOf? (b : Nat) : Option (Nat × Nat × Nat × Nat) :=
  if 0xC2 ≤ b && b ≤ 0xDF then some (1, b % 32, 0x80, 0xBF)
  else if b == 0xE0 then some (2, 0, 0xA0, 0xBF)
  else if b == 0xED then some (2, 13, 0x80, 0x9F)
  else if 0xE1 ≤ b && b ≤ 0xEF then some (2, b % 16, 0x80, 0xBF)
  else if b == 0xF0 then some (3, 0, 0x90, 0xBF)
  else if b == 0xF4 then some (3, 4, 0x80, 0x8F)
  else if 0xF1 ≤ b && b ≤ 0xF3 then some (3, b % 8, 0x80, 0xBF)
  else none

/-- Why bytes are no text, and how many of them are to blame. -/
structure Undecodable where
  size : Nat
  reason : String

/-- Reads the bytes that follow a first byte: `wanted` more, the next of them between `lo` and
`hi`, after `taken` bytes with the given bits. -/
def readTail : Nat → Nat → Nat → Nat → Nat → List UInt8 →
    Except Undecodable (Nat × List UInt8)
  | 0, bits, _, _, _, rest => .ok (bits, rest)
  | _ + 1, _, _, _, taken, [] => .error ⟨taken, "unexpected end of data"⟩
  | wanted + 1, bits, lo, hi, taken, b :: rest =>
    if lo ≤ b.toNat && b.toNat ≤ hi then
      readTail wanted (bits * 64 + b.toNat % 64) 0x80 0xBF (taken + 1) rest
    else .error ⟨taken, "invalid continuation byte"⟩

/-- Decodes bytes from a place on; `fuel` bounds the number of characters. -/
def decodeFrom (all : List UInt8) : Nat → Nat → List Char → List UInt8 → Except Fault (List Char)
  | 0, _, done, _ => .ok done.reverse
  | _ + 1, _, done, [] => .ok done.reverse
  | fuel + 1, place, done, b :: rest =>
    if b.toNat < 0x80 then decodeFrom all fuel (place + 1) (Char.ofNat b.toNat :: done) rest
    else
      match leadOf? b.toNat with
      | none => .error (.undecodable all place (place + 1) "invalid start byte")
      | some (wanted, bits, lo, hi) =>
        match readTail wanted bits lo hi 1 rest with
        | .ok (n, rest) =>
          decodeFrom all fuel (place + 1 + wanted) (Char.ofNat n :: done) rest
        | .error u => .error (.undecodable all place (place + u.size) u.reason)

/-- The text of bytes. -/
def decodeUtf8 (bytes : List UInt8) : Except Fault String := do
  let cs ← decodeFrom bytes (bytes.length + 1) 0 [] bytes
  .ok (String.ofList cs)

end Parley.Text
