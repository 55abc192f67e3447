import Parley.Builtin.Guard
import Parley.Service.Import

/-!
# The functions on files

Reading, writing and appending. A file is read line by line, and between the lines, which keep
their own line feeds, another line feed is put.
-/

namespace Parley.Act

/-- The texts of a file's lines, put together with line feeds between them. -/
def joinedLines (text : String) : String :=
  Text.joinWith "\n" ((Text.linesOf text.toList).map String.ofList)

/-- The name of a file that an argument gives. -/
def argPath (args : Args) (name : String) : Act String := do
  match ← data (← argValue args name) with
  | .str s => return s
  | d => throw (.notText d.kind)

/-- Writes a file. -/
def writeFile (after : Bool) (path text : String) : Act Unit := do
  let disk ← ofResult ((← get).disk.write after path text)
  modify fun w => { w with disk }

/-- What a function on files does. -/
def fileAction (f : FileFunction) (args : Args) : Act Answer := do
  let path ← argPath args "file"
  match f with
  | .read =>
    try
      let text ← readFile path
      return constant (.text (joinedLines text))
    catch
      | .file .missing _ => throw (.evaluation ("File not found: " ++ path))
      | f => throw f
  | .write =>
    writeFile false path (← argPath args "text")
    return nothing
  | .append =>
    writeFile true path (← argPath args "text")
    return nothing

/-- Carries out a function on files. -/
def runFile (scope : Nat) (f : FileFunction) (args : Args) : Act Answer :=
  reportAll scope (fileAction f args)

end Parley.Act
