import Parley.Builtin.Core
import Parley.Builtin.Http
import Parley.Builtin.Operators
import Parley.Builtin.Sessions
import Parley.Builtin.Sets
import Parley.Builtin.Times
import Parley.Eval.Expression
import Parley.Eval.Loop
import Parley.Eval.Remote

/-!
# The interpreter

The parts of the interpreter tied together. `interpret n` carries out a task in which at most `n`
tasks are nested; a task that needs more fails. The recursion is structural on that number: every
part gets the interpreter for one level less as its means to carry out the tasks inside it.
-/

namespace Parley.Act

/-- Calls a builtin function. -/
def runBuiltin (run : Run) (scope : Nat) (f : Builtin) (args : Args) : Act Answer :=
  match f with
  | .core f => runCore run scope f args
  | .operator o => runOperator scope o args
  | .http f => runHttp scope f args
  | .time f => runTime f args
  | .file f => runFile scope f args
  | .session f => runSession run scope f args
  | .set f => runSet scope f args

/-- Calls a function. -/
def apply (run : Run) (scope : Nat) (f : Value) (args : Args) : Act Answer :=
  match f with
  | .closure site params body => applyClosure run scope site params body args
  | .builtin f _ => runBuiltin run scope f args
  | .method address name m => applyMethod scope address name m args
  | .remote _ service call => applyRemote run scope service call args
  | .tree _ (.bare .function) => return .value f
  | v => throw (.noAttribute v.label "call")

/-- Carries out a task, given the means to carry out those inside it. -/
def step (run : Run) : Task → Act Answer
  | .evaluate scope e => evaluate run scope e
  | .renew scope v => renew run scope v
  | .apply scope f args => apply run scope f args
  | .session scope => do
    readStatements run scope roundLimit []
    return .cell (← lookup scope World.resultName)

/-- Carries out a task in which a limited number of tasks are nested. -/
def interpret : Nat → Run
  | 0, _ => throw .nestedTooDeeply
  | depth + 1, task => step (interpret depth) task

/-- How deeply tasks may be nested. -/
def depthLimit : Nat := 1000

/-- Carries out a task. -/
def run : Run :=
  interpret depthLimit

end Parley.Act
