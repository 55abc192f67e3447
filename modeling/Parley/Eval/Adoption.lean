import Parley.Eval.Expression

/-!
# Trees as values

A tree that has not been evaluated can be handed around as a value. Constants are values already;
arrays, objects and function literals become values that are evaluated when they are met; every
other tree stands for itself.
-/

namespace Parley.Act

mutual

/-- A tree whose function literals have been numbered, as a value. -/
def adoptPlaced : Expr → Act Value
  | .constant c => return .constant c
  | .array es => do
    let vs ← adoptAll es
    withStore fun s => s.newArray false vs
  | .object ps => do
    let vs ← adoptNamed ps
    withStore fun s => s.newObject false vs .null
  | .closure site params body => return .closure site params body
  | e => treeValue e

/-- Several trees as values. -/
def adoptAll : List Expr → Act (List Value)
  | [] => return []
  | e :: rest => do
    let v ← adoptPlaced e
    let more ← adoptAll rest
    return v :: more

/-- Named trees as values. -/
def adoptNamed : List (String × Expr) → Act (List (String × Value))
  | [] => return []
  | (name, e) :: rest => do
    let v ← adoptPlaced e
    let more ← adoptNamed rest
    return (name, v) :: more

end

/-- A tree as a value. -/
def adopt (e : Expr) : Act Value := do
  let e ← withStore fun s =>
    let (e, fresh) := e.placed s.fresh
    ({ s with fresh }, e)
  adoptPlaced e

end Parley.Act
