import Parley.Interpreter
import Parley.Startup

/-!
# Sessions

Running actions in a world, and the session of a world from its start to the end of its input.
-/

namespace Parley.World

/-- Carries out an action: what it gives, and the world after it. -/
def perform {α : Type} (w : World) (x : Act α) : Except Fault α × World :=
  StateT.run (ExceptT.run x) w

/-- Lets the session read its statements from a stream. -/
def readFrom (w : World) (stream : Nat) : World :=
  { w with store := w.store.modifyScope w.session fun sc => { sc with input := stream } }

/-- Carries out the session: the fault that ended it, if one did, and the world after it, with a
complete transcript. -/
def play (w : World) : Option Fault × World :=
  let (result, w) := w.perform (Act.run (.session w.session))
  let fault :=
    match result with
    | .ok _ => none
    | .error f => some f
  (fault, w.mark)

/-- Takes the output away that has been written since the last line was read. -/
def takeOutput (w : World) : String × World :=
  (w.console.written, { w with console := { w.console with written := "" } })

/-- The variables of the session with their values, the last result apart. -/
def sessionVariables (w : World) : List (String × Value) :=
  let names := (w.store.scopeAt w.session).names.filter fun p => p.1 != resultName
  names.map fun p => (p.1, w.store.cellValue p.2)

/-- The services of the session. -/
def sessionServices (w : World) : List (String × Service) :=
  w.store.servicesOf w.session

end Parley.World
