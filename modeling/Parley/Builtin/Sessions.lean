import Parley.Builtin.Files
import Parley.Help.Pages

/-!
# The functions on sessions

A session is saved as a file of statements: the imports of its services, and a definition for every
variable with a proper name that holds neither a builtin function nor a service. Opening a session
reads that file. Clearing it forgets the variables and services of the scope at hand.
-/

namespace Parley.Act

/-- Can a value be written as a statement? -/
def flattenable : Value → Bool
  | .service _ _ | .builtin _ _ | .method _ _ _ => false
  | _ => true

/-- The scope of the session around a scope: the nearest one that is marked as such, or else the
outermost. -/
def sessionScope (s : Store) : Nat → Nat → Nat
  | 0, scope => scope
  | steps + 1, scope =>
    let sc := s.scopeAt scope
    if sc.global then scope
    else
      match sc.base with
      | some base => sessionScope s steps base
      | none => scope

/-- The definitions of variables, written one after the other; a variable that cannot be written
ends it. -/
def definitionLines : List (String × Nat) → Act (List String × Option Fault)
  | [] => return ([], none)
  | (name, cell) :: rest => do
    let v ← deref (.cell cell)
    if Help.isNameText name && flattenable v then
      let flat := (← getStore fun s => s.shape v).flat
      traceAll flat.notes
      match flat.result with
      | .error f => return ([], some f)
      | .ok text =>
        let (more, fault) ← definitionLines rest
        return (("let " ++ name ++ " = " ++ text ++ "\n") :: more, fault)
    else definitionLines rest

/-- The first line of a saved session. -/
def sessionHead : String :=
  "# Maybe don't edit this file ;-)\n"

/-- The cell with the name of the current session. -/
def currentSession (scope : Nat) : Act Nat := do
  let settings := (← get).settings
  match ← member scope (.object settings) "current" with
  | .cell c => return c
  | .value _ => throw (.missingKey "current")

/-- The file of a session. -/
def sessionPath (name : String) : Act String := do
  return (← get).disk.shellHome ++ name ++ ".sess"

/-- The name of a session that a value gives, behind the folder it is in. -/
def sessionName (v : Value) : Act String := do
  match ← data v with
  | .str s => return s
  | d => throw (.addition "str" d.kind)

/-- Gives the current session the name of an argument, if there is one. -/
def nameSession (current : Nat) (args : Args) : Act Unit := do
  match args.lookup "name" with
  | some a =>
    let d ← data (← deref a)
    let v ← load d
    modifyStore fun s => s.setCell current v
  | none => pure ()

/-- Makes the folder of the shell, unless it is there. -/
def makeShellHome : Act Unit := do
  let disk := (← get).disk
  let disk ← ofResult (disk.makeFolder disk.shellHome)
  modify fun w => { w with disk }

/-- What is done before the file of a session is written: its name is found out. -/
def sessionTarget (scope : Nat) (args : Args) : Act String := do
  let current ← currentSession scope
  nameSession current args
  let name ← sessionName (← deref (.cell current))
  let path ← sessionPath name
  makeShellHome
  return path

/-- Saves the session. What can be written is written even if something cannot. -/
def saveSession (scope : Nat) (args : Args) : Act Unit := do
  let path ← sessionTarget scope args
  let global ← getStore fun s => sessionScope s scope scope
  writeFile false path sessionHead
  let services ← getStore fun s => s.servicesOf global
  let imports := services.map fun s => "import " ++ s.1 ++ "\n"
  let (definitions, fault) ← definitionLines (← scopeAt global).names
  writeFile true path (String.join (imports ++ definitions))
  match fault with
  | some f => throw f
  | none => pure ()

/-- Reads the statements of a saved session; nothing that goes wrong is reported. -/
def openSession (run : Run) (scope : Nat) (args : Args) : Act Unit := do
  let name ← sessionName (← argValue args "name")
  let path ← sessionPath name
  let input := (← scopeAt scope).input
  let current ← currentSession scope
  modifyStore fun s => s.setCell current (.text name)
  try
    let text ← readFile path
    let stream ← openText text
    modifyScope scope fun sc => { sc with input := stream }
    let _ ← run (.session scope)
  catch _ => pure ()
  modifyScope scope fun sc => { sc with input, looping := true }

/-- Forgets the variables and services of a scope. -/
def clearSession (scope : Nat) : Act Unit :=
  modifyStore fun s =>
    { (s.modifyScope scope fun sc => { sc with names := [], table := s.tables.size }) with
      tables := s.tables.push [] }

/-- Carries out a function on sessions. -/
def runSession (run : Run) (scope : Nat) (f : SessionFunction) (args : Args) : Act Answer :=
  reportAll scope do
    match f with
    | .save => saveSession scope args
    | .open => openSession run scope args
    | .clear => clearSession scope
    return nothing

end Parley.Act
