import Parley.Fault

/-!
# Base 64

Bytes written with 64 characters, six bits each. When text is decoded, characters outside the
alphabet are passed over, and what comes after complete padding is not looked at.
-/

namespace Parley.Text

/-- The alphabet. -/
def base64Alphabet : List Char :=
  "ABCDEFGHIJKLMNOPQRSTUVWXYZabcdefghijklmnopqrstuvwxyz0123456789+/".toList

/-- The character for six bits. -/
def base64Char (n : Nat) : Char :=
  base64Alphabet[n]?.getD '='

/-- Bytes in base 64, padded to a multiple of four characters. -/
def encodeBase64 : List UInt8 → List Char
  | [] => []
  | [a] =>
    [base64Char (a.toNat / 4), base64Char (a.toNat % 4 * 16), '=', '=']
  | [a, b] =>
    [ base64Char (a.toNat / 4), base64Char (a.toNat % 4 * 16 + b.toNat / 16),
      base64Char (b.toNat % 16 * 4), '=' ]
  | a :: b :: c :: rest =>
    base64Char (a.toNat / 4) :: base64Char (a.toNat % 4 * 16 + b.toNat / 16) ::
      base64Char (b.toNat % 16 * 4 + c.toNat / 64) :: base64Char (c.toNat % 64) ::
      encodeBase64 rest

/-- The six bits of a character of the alphabet. -/
def base64Value? (c : Char) : Option Nat :=
  base64Alphabet.findIdx? (· == c)

/-- A byte from its bits. -/
def byteOf (n : Nat) : UInt8 :=
  UInt8.ofNat n

/-- Decodes characters: `place` is the position in the group of four, `left` the bits that are left
over, `pads` the padding characters in a row, `done` the bytes so far, the last one first. -/
def decodeBase64From : Nat → Nat → Nat → List UInt8 → List Char → Except Fault (List UInt8)
  | place, _, _, done, [] =>
    if place = 0 then .ok done.reverse
    else if place = 1 then
      let count := done.length / 3 * 4 + 1
      .error (.base64 (s!"Invalid base64-encoded string: number of data characters ({count}) " ++
        "cannot be 1 more than a multiple of 4"))
    else .error (.base64 "Incorrect padding")
  | place, left, pads, done, c :: rest =>
    if c == '=' then
      if place ≥ 2 then
        if place + (pads + 1) ≥ 4 then .ok done.reverse
        else decodeBase64From place left (pads + 1) done rest
      else decodeBase64From place left pads done rest
    else
      match base64Value? c with
      | none => decodeBase64From place left pads done rest
      | some n =>
        match place with
        | 0 => decodeBase64From 1 n 0 done rest
        | 1 => decodeBase64From 2 (n % 16) 0 (byteOf (left * 4 + n / 16) :: done) rest
        | 2 => decodeBase64From 3 (n % 4) 0 (byteOf (left * 16 + n / 4) :: done) rest
        | _ => decodeBase64From 0 0 0 (byteOf (left * 64 + n) :: done) rest

/-- The bytes of text in base 64. -/
def decodeBase64 (s : String) : Except Fault (List UInt8) :=
  if s.toList.all (fun c => c.toNat < 128) then decodeBase64From 0 0 0 [] s.toList
  else .error .notAscii

end Parley.Text
