import Parley.Expr.Basic

/-!
# Putting trees together

How the author of a module makes trees without writing statements: lists of elements, parameters and
arguments that grow by one part at a time, blocks, and trees for data.
-/

namespace Parley.Expr

/-- The elements that a tree stands for in a list. -/
def elementsOf : Expr → List Expr
  | elementList es => es
  | e => [e]

/-- A list of elements: those of the first tree, and the second tree. -/
def joinElements (first second : Option Expr) : Expr :=
  elementList ((first.map elementsOf).getD [] ++ second.toList)

/-- The parameters that a tree stands for in a list. -/
def paramsOf : Expr → List String
  | paramList ps => ps
  | _ => []

/-- The arguments that a tree has. -/
def argsOf? : Expr → Option (List (String × Expr))
  | arg name value => some [(name, value)]
  | argList args => some args
  | call _ args => some args
  | opCall _ left right => some [("left", left), ("right", right)]
  | _ => none

/-- A list of arguments: those of the first tree, and the second tree if it is an argument. -/
def joinArgs (first : Expr) (second : Option Expr) : Except Fault Expr :=
  match argsOf? first with
  | none => .error (.noAttribute first.label "args")
  | some args =>
    .ok (argList (match second with
      | some (arg name value) => putArg name value args
      | _ => args))

/-- A block: the parts of the first tree if it is one, else the first tree itself, and the second
tree. -/
def joinBlock (first second : Expr) : Expr :=
  match first with
  | block es => block (es ++ [second])
  | e => block [e, second]

mutual

/-- The tree of a datum; bytes and sets have none. -/
def ofData? : Data → Option Expr
  | .null => some (constant .null)
  | .bool b => some (constant (.bool b))
  | .int n => some (constant (.int n))
  | .float x => some (constant (.float x))
  | .str s => some (constant (.text s))
  | .bytes _ | .set _ => none
  | .list xs => (ofDataAll? xs).map array
  | .dict es => (ofEntries? es).map object

/-- The trees of several data. -/
def ofDataAll? : List Data → Option (List Expr)
  | [] => some []
  | d :: rest => do
    let e ← ofData? d
    let more ← ofDataAll? rest
    some (e :: more)

/-- The trees of the entries of a dictionary. -/
def ofEntries? : List (String × Data) → Option (List (String × Expr))
  | [] => some []
  | (k, d) :: rest => do
    let e ← ofData? d
    let more ← ofEntries? rest
    some ((k, e) :: more)

end

end Parley.Expr
