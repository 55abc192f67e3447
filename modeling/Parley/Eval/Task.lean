import Parley.World.Basic

/-!
# Tasks

What the interpreter is asked to do. Every part of the interpreter is written for one task and is
handed the means to carry out the tasks inside it; the interpreter itself (`Parley.Interpreter`)
only ties the parts together, one level of nesting at a time.
-/

namespace Parley

/-- The arguments of a call. An argument can be a cell that the function writes to. -/
abbrev Args := List (String × Answer)

/-- Something to be carried out. -/
inductive Task where
  /-- Evaluate a tree in a scope. -/
  | evaluate (scope : Nat) (e : Expr)
  /-- Evaluate a value again: what has been evaluated before stays as it is. -/
  | renew (scope : Nat) (v : Value)
  /-- Call a function from a scope. -/
  | apply (scope : Nat) (f : Value) (args : Args)
  /-- Read and evaluate the statements of a scope's input; gives the last result. -/
  | session (scope : Nat)

/-- The means to carry out tasks. -/
abbrev Run := Task → Act Answer

namespace Act

/-- An argument that must be there. -/
def argument (args : Args) (name : String) : Act Answer :=
  match args.lookup name with
  | some a => pure a
  | none => throw (.missingKey name)

/-- The value of an argument that must be there. -/
def argValue (args : Args) (name : String) : Act Value := do
  deref (← argument args name)

/-- Carries out an action and then, in any case, another one. -/
def andThen {α : Type} (x : Act α) (last : Act Unit) : Act α := do
  let result : Except Fault α ←
    try
      let a ← x
      pure (.ok a)
    catch f => pure (.error f)
  last
  ofResult result

end Act

end Parley
