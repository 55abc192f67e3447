import Parley.Eval.Task

/-!
# Reporting failures of builtin functions

A builtin function that fails reports the class of the fault and the texts that it carries, as an
error of the scope that called it. Most functions of modules do so for every fault, the functions
that stand alone only for those that are not such errors already.
-/

namespace Parley.Act

/-- Reports a fault as an error of a scope. -/
def reportFault {α : Type} (scope : Nat) (f : Fault) : Act α := do
  let text ← ofResult f.joined
  error scope (f.label ++ ": " ++ text)

/-- Reports every fault of an action. -/
def reportAll {α : Type} (scope : Nat) (x : Act α) : Act α := do
  try x
  catch f => reportFault scope f

/-- Reports the faults of an action that are not reported yet. -/
def reportOthers {α : Type} (scope : Nat) (x : Act α) : Act α := do
  try x
  catch
    | .evaluation m => throw (.evaluation m)
    | f => reportFault scope f

/-- The text of a value that must be one. -/
def textValue (v : Value) : Act String := do
  match v with
  | .constant (.text s) => return s
  | .constant c => throw (.notText c.data.kind)
  | v => throw (.noAttribute v.label "getValue")

/-- The text of an argument. -/
def argString (args : Args) (name : String) : Act String := do
  textValue (← argValue args name)

/-- The cells of an array that an argument is. -/
def argCells (args : Args) (name : String) : Act (List Nat) := do
  match ← argValue args name with
  | .array address => return (← getStore fun s => s.arrayAt address).cells
  | v => throw (.noAttribute v.label "elements")

/-- A constant as an answer. -/
def constant (c : Constant) : Answer :=
  .value (.constant c)

/-- Null as an answer. -/
def nothing : Answer :=
  constant .null

end Parley.Act
