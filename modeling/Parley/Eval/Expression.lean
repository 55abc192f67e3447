import Parley.Eval.Call
import Parley.Service.Import

/-!
# Evaluation of expressions

One level of evaluation: what a tree gives when the trees inside it are evaluated by the given
means. A variable, a property and an element give the cell that holds their value, so that an
assignment can write to it.
-/

namespace Parley.Act

/-- Evaluates a tree to a value. -/
def evaluateValue (run : Run) (scope : Nat) (e : Expr) : Act Value := do
  deref (← run (.evaluate scope e))

/-- Evaluates named trees, one after the other. -/
def evaluateArgs (run : Run) (scope : Nat) : List (String × Expr) → Act Args
  | [] => return []
  | (name, e) :: rest => do
    let a ← run (.evaluate scope e)
    let more ← evaluateArgs run scope rest
    return (name, a) :: more

/-- Evaluates named trees to values. -/
def evaluateNamed (run : Run) (scope : Nat) :
    List (String × Expr) → Act (List (String × Value))
  | [] => return []
  | (name, e) :: rest => do
    let v ← evaluateValue run scope e
    let more ← evaluateNamed run scope rest
    return (name, v) :: more

/-- Evaluates the parts of a block; the last one counts. -/
def evaluateBlock (run : Run) (scope : Nat) : Answer → List Expr → Act Answer
  | last, [] => return last
  | _, e :: rest => do
    let a ← run (.evaluate scope e)
    evaluateBlock run scope a rest

/-- A function literal remembers the first scope in which it is evaluated. -/
def capture (scope site : Nat) : Act Unit :=
  modifyStore fun s =>
    if (s.captured.lookup site).isSome then s
    else { s with captured := (site, scope) :: s.captured }

/-- A tree that stands for itself, as a new value. -/
def treeValue (e : Expr) : Act Value := do
  let n ← withStore Store.takeFresh
  return .tree n e

/-- Prints help about an expression. -/
def giveHelp (run : Run) (scope : Nat) (what : Expr) : Act Unit := do
  foreground "purple"
  let name :=
    match what.name? with
    | some n => if n.isEmpty then "that" else n
    | none => "that"
  let v ← evaluateValue run scope what
  Help.value scope name v
  reset

/-- Prints help about everything. -/
def giveGeneralHelp (scope : Nat) : Act Unit := do
  foreground "purple"
  Help.environment scope
  reset

/-- Ends the reading of statements. -/
def stopLoop (scope : Nat) : Act Unit :=
  modifyScope scope fun sc => { sc with looping := false }

/-- Writes an answer into another one, which must be a cell. -/
def assignTo (target value : Answer) : Act Unit := do
  match target with
  | .cell c =>
    let v ← deref value
    modifyStore fun s => s.setCell c v
  | .value v => throw (.noAttribute v.label "set")

/-- The element of an array at an index. -/
def element (scope : Nat) (array index : Value) : Act Answer := do
  match array, index with
  | .array address, .constant (.int n) =>
    let cells := (← getStore fun s => s.arrayAt address).cells
    if n < 0 then error scope s!"No element at index {n}"
    else
      match cells[n.toNat]? with
      | some c => return .cell c
      | none => error scope s!"No element at index {n}"
  | .array _, v =>
    let text ← pasted v
    error scope (text ++ " cannot be used as a subscript")
  | v, _ =>
    let text ← pasted v
    error scope (text ++ " is not subscriptable")

/-- Evaluates a tree. -/
def evaluate (run : Run) (scope : Nat) (e : Expr) : Act Answer := do
  match e with
  | .lookup name => return .cell (← lookup scope name)
  | .constant c => return .value (.constant c)
  | .array es =>
    let vs ← es.mapM (evaluateValue run scope)
    return .value (← withStore fun s => s.newArray true vs)
  | .object ps =>
    let vs ← evaluateNamed run scope ps
    return .value (← withStore fun s => s.newObject true vs .null)
  | .closure site params body =>
    capture scope site
    return .value (.closure site params body)
  | .block es => evaluateBlock run scope (.value .null) es
  | .member whole name =>
    let v ← evaluateValue run scope whole
    if !v.isObject then
      let text ← pasted v
      error scope (text ++ " is not an object")
    member scope v name
  | .define name =>
    let _ ← assign scope name .null
    return .cell (← lookup scope name)
  | .exit =>
    stopLoop scope
    return .value (← treeValue e)
  | .ifThen condition yes no =>
    let c ← evaluateValue run scope condition
    if ← getStore fun s => s.truthy c then run (.evaluate scope yes)
    else run (.evaluate scope no)
  | .assign target value =>
    let cell ← run (.evaluate scope target)
    let a ← run (.evaluate scope value)
    assignTo cell a
    return a
  | .importName name => return .value (← importService scope name)
  | .helpAll =>
    giveGeneralHelp scope
    return .value (← treeValue e)
  | .help what =>
    giveHelp run scope what
    return .value (← treeValue e)
  | .attempt body =>
    try run (.evaluate scope body)
    catch
      | .evaluation _ => return .value .null
      | f => throw f
  | .call f args =>
    let args ← evaluateArgs run scope args
    let f ← evaluateValue run scope f
    invoke run scope f args
  | .opCall op left right =>
    let args ← evaluateArgs run scope [("left", left), ("right", right)]
    let f ← evaluateValue run scope op
    invoke run scope f args
  | .subscript whole index =>
    let array ← evaluateValue run scope whole
    match array with
    | .array _ =>
      let i ← evaluateValue run scope index
      element scope array i
    | v => element scope v .null
  | .group inner => run (.evaluate scope inner)
  | .negate inner =>
    match ← evaluateValue run scope inner with
    | .constant (.bool b) => return .value (.constant (.bool !b))
    | v =>
      let text ← pasted v
      error scope (text ++ " is not a boolean")
  | .elementList _ | .paramList _ | .arg _ _ | .argList _ | .bare _ =>
    return .value (← treeValue e)

/-- Evaluates the values in named cells again. -/
def renewNamed (run : Run) (scope : Nat) :
    List (String × Nat) → Act (List (String × Value))
  | [] => return []
  | (name, cell) :: rest => do
    let a ← run (.renew scope (← deref (.cell cell)))
    let v ← deref a
    let more ← renewNamed run scope rest
    return (name, v) :: more

/-- Evaluates a value again. Arrays and objects that have not been evaluated give new ones, and
trees give what they stand for. -/
def renew (run : Run) (scope : Nat) (v : Value) : Act Answer := do
  match v with
  | .array address =>
    let record ← getStore fun s => s.arrayAt address
    if record.evaluated then return .value v
    else
      let vs ← renewNamed run scope (record.cells.map fun c => ("", c))
      return .value (← withStore fun s => s.newArray true (vs.map Prod.snd))
  | .object address =>
    let record ← getStore fun s => s.objectAt address
    if record.evaluated then return .value v
    else
      let vs ← renewNamed run scope record.cells
      return .value (← withStore fun s => s.newObject true vs .null)
  | .closure site _ _ =>
    capture scope site
    return .value v
  | .tree _ .exit =>
    stopLoop scope
    return .value v
  | .tree _ .helpAll =>
    giveGeneralHelp scope
    return .value v
  | .tree _ (.help what) =>
    giveHelp run scope what
    return .value v
  | .tree _ (.elementList _) | .tree _ (.paramList _) | .tree _ (.arg _ _)
  | .tree _ (.argList _) | .tree _ (.bare _) => return .value v
  | .tree _ e => run (.evaluate scope e)
  | v => return .value v

/-- Gives the parameters of a function literal their arguments. -/
def bindParams (scope : Nat) (args : Args) : List String → Act Unit
  | [] => return
  | param :: rest => do
    let v ← argValue args param
    let _ ← assign scope param v
    bindParams scope args rest

/-- Calls a function literal: its body is evaluated in a scope inside the one it remembers. -/
def applyClosure (run : Run) (scope site : Nat) (params : List String) (body : Expr)
    (args : Args) : Act Answer := do
  match ← getStore fun s => s.captured.lookup site with
  | none => error scope "Function not evaluated!"
  | some outer =>
    let inner ← withStore fun s => s.newChild outer
    bindParams inner args params
    run (.evaluate inner body)

end Parley.Act
