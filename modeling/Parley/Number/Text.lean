import Parley.Number.Shortest
import Parley.Text.Blank
import Parley.Text.Digit

/-!
# Numbers as text

A double is written with its shortest decimal: positionally while the leading digit stands
between `10 ^ -4` and `10 ^ 15`, with an exponent of at least two digits beyond that. Integers
are written in full, but texts of more than 4300 digits are neither read nor written.
-/

namespace Parley.Number

/-- The largest number of digits of an integer that is read or written. -/
def digitLimit : Nat := 4300

/-- The digits of a natural number. -/
def digitsOf (n : Nat) : List Char :=
  (Nat.toDigits 10 n)

/-- How doubles are laid out. -/
structure Layout where
  /-- The least exponent of the leading digit that is written positionally. -/
  least : Int
  /-- The first exponent that is too large to be written positionally. -/
  beyond : Int
  /-- The least number of digits of a written exponent. -/
  exponentWidth : Nat

/-- The layout of doubles in the shell: `0.0001` and `1000000000000000.0` are positional, `1e-05`
and `1e+16` are not. -/
def shellLayout : Layout := ⟨-4, 16, 2⟩

/-- The text of a non-negative decimal in a layout. -/
def Decimal.write (layout : Layout) (d : Decimal) : List Char :=
  let ds := digitsOf d.digits
  let lead : Int := d.exponent + (ds.length : Int) - 1
  if layout.least ≤ lead ∧ lead < layout.beyond then
    if d.exponent ≥ 0 then ds ++ List.replicate d.exponent.toNat '0' ++ ['.', '0']
    else if lead ≥ 0 then
      let whole := (lead + 1).toNat
      ds.take whole ++ '.' :: ds.drop whole
    else '0' :: '.' :: (List.replicate (-lead - 1).toNat '0' ++ ds)
  else
    let es := digitsOf lead.natAbs
    let padded := List.replicate (layout.exponentWidth - es.length) '0' ++ es
    let fraction := match ds with
      | [] => []
      | [c] => [c]
      | c :: rest => c :: '.' :: rest
    fraction ++ 'e' :: (if lead < 0 then '-' else '+') :: padded

/-- The text of a double. -/
def floatText (x : Float) : String :=
  match Binary.ofFloat x with
  | .undefined => "nan"
  | .infinite negative => if negative then "-inf" else "inf"
  | .finite negative m e =>
    let body :=
      if m = 0 then ['0', '.', '0'] else (Decimal.shortest m e).write shellLayout
    String.ofList (if negative then '-' :: body else body)

/-- The value of a run of decimal digits. -/
def digitsValue (cs : List Char) : Nat :=
  cs.foldl (fun n c => 10 * n + (c.toNat - '0'.toNat)) 0

/-- The double nearest to `± n * 10 ^ e`; an infinity beyond the largest double. -/
def ofDecimal (negative : Bool) (n : Nat) (e : Int) : Float :=
  let size : Int := (Nat.log2 n : Int) * 30103 / 100000 + e
  if n = 0 ∨ size < -400 then withSign negative 0
  else if size > 400 then infinity negative
  else
    let (num, den) := tenFold n e
    match ofFraction? negative num den with
    | some x => x
    | none => infinity negative

/-- Reads `digits.digits` as a double; the point is between the two runs. -/
def ofDigits (negative : Bool) (whole fraction : List Char) : Float :=
  ofDecimal negative (digitsValue (whole ++ fraction)) (-(fraction.length : Int))

/-- Digits of any script, possibly in groups that are joined by single underscores; the value and
the number of digits, or `none` if the text has another form. -/
def groupedDigits? : List Char → Option (Nat × Nat)
  | cs => go false 0 0 cs
where
  go (started : Bool) (value count : Nat) : List Char → Option (Nat × Nat)
    | [] => if started then some (value, count) else none
    | c :: rest =>
      match Parley.Text.decimalValue? c with
      | some digit => go true (10 * value + digit) (count + 1) rest
      | none =>
        if c == '_' && started then
          match rest with
          | d :: rest' =>
            match Parley.Text.decimalValue? d with
            | some digit => go true (10 * value + digit) (count + 1) rest'
            | none => none
          | [] => none
        else none

/-- Reads an integer from text: blanks at either end, a sign, digits in groups. Texts of too many
digits and texts of another form give `none`. -/
def intOfText? (s : String) : Option Int :=
  match Parley.Text.trimBlanks s.toList with
  | '-' :: cs => (limited cs).map fun n => -(n : Int)
  | '+' :: cs => (limited cs).map fun n => (n : Int)
  | cs => (limited cs).map fun n => (n : Int)
where
  limited (cs : List Char) : Option Nat :=
    match groupedDigits? cs with
    | some (value, count) => if count ≤ digitLimit then some value else none
    | none => none

end Parley.Number
