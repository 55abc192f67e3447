import Parley.Builtin.Guard

/-!
# The functions on sets

A set is made of the data of an array's elements, and an array of the data of a set's members.
-/

namespace Parley.Act

/-- Loads several data. -/
def loadAll : List Data → Act (List Value)
  | [] => return []
  | d :: rest => do
    let v ← load d
    let more ← loadAll rest
    return v :: more

/-- What a function on sets does. -/
def setAction (f : SetFunction) (args : Args) : Act Answer := do
  match f with
  | .create =>
    let d ← data (← argValue args "from")
    let items ← ofResult d.items
    return constant (.set (← ofResult (Data.toSet [] items)))
  | .array =>
    match ← argValue args "set" with
    | .constant (.set members) =>
      let vs ← loadAll members
      return .value (← withStore fun s => s.newArray false vs)
    | v => throw (.noAttribute v.label "elements")

/-- Carries out a function on sets. -/
def runSet (scope : Nat) (f : SetFunction) (args : Args) : Act Answer :=
  reportAll scope (setAction f args)

end Parley.Act
