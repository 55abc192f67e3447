import Parley.Markup.Reading
import Parley.World.Basic

/-!
# Importing services and modules

A service is imported from a document with its name, from the working folder or else from the
shell's own folder at home. If there is no such document, a module of that name is looked for in
the same places; the one that exists is the module of sets.

A module can be anything that its author has written. Of those beside the module of sets nothing is
known here, and importing one defines nothing.
-/

namespace Parley.Act

/-- The text of a file. -/
def readFile (path : String) : Act String := do
  ofResult ((← get).disk.read path)

/-- The document of a service: from the working folder, or else from the shell's own folder. -/
def serviceDocument (filename : String) : Act Data := do
  try
    let text ← readFile filename
    ofResult (Markup.read text)
  catch
    | .file .missing _ => do
      let home := (← get).disk.shellHome
      let text ← readFile (home ++ filename)
      ofResult (Markup.read text)
    | f => throw f

/-- The service that a document describes. -/
def loadService (filename : String) : Act Service := do
  let document ← serviceDocument filename
  ofResult (Service.ofDocument document)

/-- The module of sets: an object with its functions. Loading it again makes new functions. -/
def loadSets (scope : Nat) : Act Unit := do
  let copy ← withStore Store.takeFresh
  let functions := SetFunction.all.map fun f => (f.name, Value.builtin (.set f) copy)
  let v ← withStore fun s =>
    s.newObject false functions (.str "Functions for working with sets")
  let _ ← assign scope "set" v

/-- Loads a module. -/
def importModule (scope : Nat) (name : String) : Act Unit := do
  let disk := (← get).disk
  let short := name ++ ".py"
  if disk.present short || disk.present (disk.shellHome ++ short) then
    if name == "set" then loadSets scope
  else throw (.file .missing short)

/-- Imports a service or else a module. -/
def importService (scope : Nat) (name : String) : Act Value := do
  let filename := Text.replaceAll "." "/" name ++ ".yaml"
  let v ← withStore fun s => s.newService name
  try
    let service ← loadService filename
    modifyStore fun s => s.setService scope name service
    let _ ← assign scope name v
    match v with
    | .service address _ =>
      modifyStore fun s =>
        { s with
          services := s.services.modify address fun r =>
            { r with description := service.description } }
    | _ => pure ()
  catch
    | .unsupportedProtocol protocol => error scope ("Unsupport protocol \"" ++ protocol ++ "\"")
    | .file .missing _ =>
      try importModule scope name
      catch
        | .file .missing _ => error scope ("Could not find service or module " ++ name)
        | f => throw f
    | f => throw f
  return v

end Parley.Act
