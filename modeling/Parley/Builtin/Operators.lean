import Parley.Builtin.Guard

/-!
# Operators

Arithmetic on integers of any size and on floating point numbers, comparison, logic and the joining
of texts. An integer next to a floating point number is converted, which fails if it is too large.
Two integers are divided as if their quotient were rounded once, from its exact value.
-/

namespace Parley

/-- A number. -/
inductive Numeric where
  | int (n : Int)
  | float (x : Float)

namespace Numeric

/-- A number as a floating point number. -/
def toFloat : Numeric → Except Fault Float
  | .float x => .ok x
  | .int n =>
    match Number.ofInt? n with
    | some x => .ok x
    | none => .error .intTooLarge

/-- The number as a constant. -/
def constant : Numeric → Constant
  | .int n => .int n
  | .float x => .float x

/-- An operation that is exact on integers. -/
def combine (onInts : Int → Int → Int) (onFloats : Float → Float → Float) :
    Numeric → Numeric → Except Fault Numeric
  | .int a, .int b => .ok (.int (onInts a b))
  | a, b => do
    let x ← a.toFloat
    let y ← b.toFloat
    .ok (.float (onFloats x y))

/-- The quotient of two integers, rounded from its exact value. -/
def divideInts (a b : Int) : Except Fault Float :=
  if b = 0 then .error (.divisionByZero false)
  else
    let negative := decide (a < 0) != decide (b < 0)
    if a = 0 then .ok (Number.withSign negative 0)
    else
      match Number.ofFraction? negative a.natAbs b.natAbs with
      | some x => .ok x
      | none => .error .quotientTooLarge

/-- The quotient of two numbers. -/
def divide : Numeric → Numeric → Except Fault Float
  | .int a, .int b => divideInts a b
  | a, b => do
    let x ← a.toFloat
    let y ← b.toFloat
    if y == 0.0 then .error (.divisionByZero true) else .ok (x / y)

/-- Is one number smaller than another? Integers and floating point numbers are compared by their
exact values. -/
def less : Numeric → Numeric → Bool
  | .int a, .int b => a < b
  | .float a, .float b => a < b
  | .int a, .float b => Number.compareIntFloat a b == some .lt
  | .float a, .int b => Number.compareIntFloat b a == some .gt

end Numeric

namespace Operator

/-- Arithmetic and comparison. -/
def numbers (o : Operator) (a b : Numeric) : Except Fault Constant := do
  match o with
  | .subtract => return (← Numeric.combine (· - ·) (· - ·) a b).constant
  | .multiply => return (← Numeric.combine (· * ·) (· * ·) a b).constant
  | .divide => return .float (← Numeric.divide a b)
  | .less => return .bool (a.less b)
  | .greater => return .bool (b.less a)
  | _ => return (← Numeric.combine (· + ·) (· + ·) a b).constant

end Operator

namespace Act

/-- The number that a value is. -/
def numericOf (v : Value) : Act Numeric := do
  match v with
  | .constant (.int n) => return .int n
  | .constant (.float x) => return .float x
  | .constant (.bool b) => return .int (if b then 1 else 0)
  | .constant c => throw (.addition c.data.kind "int")
  | v => throw (.noAttribute v.label "getValue")

/-- One side of the joining of texts. -/
def concatSides (left right : Value) : Act String := do
  match left, right with
  | .constant (.text a), .constant (.text b) => return a ++ b
  | .constant a, .constant b => throw (.addition a.data.kind b.data.kind)
  | .constant _, v => throw (.noAttribute v.label "getValue")
  | v, _ => throw (.noAttribute v.label "getValue")

/-- The one of two values that decides a logical operator. -/
def logicSides (isOr : Bool) (left right : Value) : Act Value := do
  match left, right with
  | .constant a, .constant _ =>
    if a.data.truthy == isOr then return left else return right
  | .constant _, v => throw (.noAttribute v.label "getValue")
  | v, _ => throw (.noAttribute v.label "getValue")

/-- What an operator does. -/
def operate (o : Operator) (left right : Value) : Act Value := do
  match o with
  | .equal | .unequal => return .constant (.bool (left.equal right))
  | .concat => return .text (← concatSides left right)
  | .or => logicSides true left right
  | .and => logicSides false left right
  | o =>
    let a ← numericOf left
    let b ← numericOf right
    return .constant (← ofResult (o.numbers a b))

/-- Carries out an operator. -/
def runOperator (scope : Nat) (o : Operator) (args : Args) : Act Answer := do
  let left ← argValue args "left"
  let right ← argValue args "right"
  return .value (← reportOthers scope (operate o left right))

end Act

end Parley
