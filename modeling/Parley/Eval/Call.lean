import Parley.Eval.Task
import Parley.Help.Pages

/-!
# Calls

A call evaluates its arguments, then the function, and checks the arguments against the types of the
parameters before it hands over. Arguments without a parameter are passed on unchecked.
-/

namespace Parley.Act

/-- The word for the kind of an argument. -/
def argTypeName (a : Answer) : Act String := do
  match a with
  | .cell _ => return "cell"
  | .value v => return v.typeName

/-- Checks an argument that must be a cell. -/
def checkCell (scope : Nat) (param : String) (arg : Option Answer) : Act Unit := do
  match arg with
  | some (.cell _) => return
  | some a =>
    let text ← pasted (← deref a)
    let kind ← ofResult (Help.article (← argTypeName a))
    error scope
      s!"Parameter `{param}` should be a variable or other cell not {text}, {kind}"
  | none => throw (.missingKey param)

/-- The text that a type is. -/
def typeText : Data → Act String
  | .str s => return s
  | d => throw (.noAttribute d.kind "startswith")

/-- Checks that an argument is of the type that is wanted. -/
def checkType (scope : Nat) (param : String) (wanted : Data) (a : Answer) : Act Unit := do
  let v ← deref a
  let word ← typeText wanted
  if !v.hasType word then
    let noun ← ofResult (Help.article word)
    let text ← shown v
    let kind ← ofResult (Help.article (← argTypeName a))
    error scope s!"Parameter `{param}` should be {noun} not {text}, {kind}"

/-- Checks the argument for one parameter: it must be there unless it may be left out, and it must
be of the right type if it is there. -/
def checkArg (scope : Nat) (args : Args) (param : String) (type : Data) : Act Unit := do
  let optional ← ofResult (Help.isOptional type)
  let wanted := if optional then Help.required type else type
  let arg := args.lookup param
  if arg.isNone && !optional then
    let noun ← ofResult (Help.article type.text)
    error scope s!"Missing argument: `{param}` should be {noun}"
  match type, arg with
  | .str "cell", arg => checkCell scope param arg
  | _, none => return
  | _, some a => checkType scope param wanted a

/-- Checks the arguments for several parameters. -/
def checkEach (scope : Nat) (args : Args) : Data.Entries → Act Unit
  | [] => return
  | (param, type) :: rest => do
    checkArg scope args param type
    checkEach scope args rest

/-- Checks the arguments for all parameters of a function. -/
def checkArgs (scope : Nat) (args : Args) (params : Data) : Act Unit := do
  match params with
  | .dict es => checkEach scope args es
  | d =>
    match ← ofResult d.items with
    | [] => return
    | item :: _ =>
      let _ ← ofResult (d.part item.text)

/-- Calls a function after its arguments have been checked. -/
def invoke (run : Run) (scope : Nat) (f : Value) (args : Args) : Act Answer := do
  if !f.isFunction then
    let text ← pasted f
    error scope (text ++ " is not a function")
  let params ← paramsOf scope f
  checkArgs scope args params
  foreground "yellow"
  andThen (run (.apply scope f args)) reset

end Parley.Act
