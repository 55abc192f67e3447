import Parley.Text.Printable

/-!
# Quoted text

Text inside messages and inside shown data is put in single quotes, or in double quotes if it
holds a single quote and no double quote. The quote in use, the backslash and everything without
a visible form are escaped. Bytes are shown in the same way after the letter `b`.
-/

namespace Parley.Text

/-- The digits of a number in base sixteen, with zeros in front up to a width. -/
def hexDigits (width n : Nat) : List Char :=
  let ds := Nat.toDigits 16 n
  List.replicate (width - ds.length) '0' ++ ds

/-- One character inside quotes. -/
def quoteChar (quote : Char) (c : Char) : List Char :=
  if c == quote || c == '\\' then ['\\', c]
  else if c == '\n' then ['\\', 'n']
  else if c == '\r' then ['\\', 'r']
  else if c == '\t' then ['\\', 't']
  else if isPrintable c then [c]
  else if c.toNat < 0x100 then '\\' :: 'x' :: hexDigits 2 c.toNat
  else if c.toNat < 0x10000 then '\\' :: 'u' :: hexDigits 4 c.toNat
  else '\\' :: 'U' :: hexDigits 8 c.toNat

/-- The quote that a text is put in. -/
def chooseQuote (cs : List Char) : Char :=
  if cs.contains '\'' && !cs.contains '"' then '"' else '\''

/-- Text in quotes. -/
def quoted (s : String) : String :=
  let cs := s.toList
  let q := chooseQuote cs
  String.ofList (q :: cs.flatMap (quoteChar q) ++ [q])

/-- One byte inside quotes. -/
def quoteByte (quote : Char) (b : UInt8) : List Char :=
  if b < 0x80 then quoteChar quote (Char.ofNat b.toNat) else '\\' :: 'x' :: hexDigits 2 b.toNat

/-- Bytes in quotes, after the letter `b`. -/
def quotedBytes (bs : List UInt8) : String :=
  let q := chooseQuote (bs.map fun b => Char.ofNat b.toNat)
  String.ofList ('b' :: q :: bs.flatMap (quoteByte q) ++ [q])

end Parley.Text
