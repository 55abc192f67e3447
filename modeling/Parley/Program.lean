import Parley.CommandLine.Options
import Parley.CommandLine.Usage
import Parley.Session

/-!
# The program

What the shell does when it is started: it takes its arguments, reads the statements of the start-up
file and of the files that the arguments name, and then those of a script or of the standard input.
-/

namespace Parley.Program

open Act

/-- What the shell says about its version. -/
def versionLines : List String :=
  [ "REST Shell v1.0",
    "Copyright (C) 2024 Raymond W. Wallace III",
    "License GPLv2: GNU GPL version 2 <https://www.gnu.org/licenses/old-licenses/gpl-2.0.html>",
    "",
    "This is free software; you are free to change and redistribute it.",
    "There is NO WARRANTY, to the extent permitted by law." ]

/-- The file with the lines that have been typed. -/
def historyFile : String := "~/.restsh_history"

/-- The file with the statements of the start. -/
def startFile : String := "~/.restshrc"

/-- Changes the scope of the session. -/
def modifySession (f : Scope → Scope) : Act Unit := do
  modifyScope (← get).session f

/-- Reads and evaluates the statements of the session's input. -/
def readSession : Act Unit := do
  let _ ← Act.run (.session (← get).session)

/-- Reads and evaluates the statements of a file. -/
def readScript (path : String) : Act Unit := do
  let stream ← openText (← readFile path)
  modifySession fun sc => { sc with input := stream }
  readSession

/-- Reads and evaluates the statements of a file; after that the standard input is to be read. -/
def readBefore (path : String) : Act Unit := do
  readScript path
  modifySession fun sc => { sc with input := 0, looping := true }

/-- Makes sure that the file with the lines that have been typed exists. -/
def keepHistory : Act Unit := do
  let disk := (← get).disk
  let disk ← ofResult (disk.write true (disk.expandHome historyFile) "")
  modify fun w => { w with disk }

/-- Reads the statements that are typed in. -/
def converse : Act Unit :=
  andThen
    (do
      Help.printWrapped Help.leader
      readSession)
    (print "")

/-- Carries out what the arguments ask for. -/
def carryOut (r : CommandLine.Request) : Act Unit := do
  keepHistory
  let disk := (← get).disk
  let start := disk.expandHome startFile
  if !r.skipRc && disk.present start then readBefore start
  r.environment.forM readBefore
  match r.script with
  | some path => if path.isEmpty then converse else readScript path
  | none => converse

/-- The number of columns for help on the command line; the process environment may state it. -/
def columns (x : Surroundings) : Nat :=
  match (x.environment.lookup "COLUMNS").bind Number.intOfText? with
  | some n => if n > 0 then n.toNat else x.width
  | none => x.width

/-- What the program does, and its exit status. -/
def body (columns : Nat) (r : CommandLine.Request) : Act Nat := do
  if r.help then
    write (CommandLine.usage columns)
    return 0
  else if r.version then
    versionLines.forM print
    return 1
  else
    carryOut r
    return 0

/-- Runs the program with the given arguments: its exit status, or the fault that ended it, and the
world after it. Arguments that are refused end it at once. -/
def run (x : Surroundings) (arguments : List String) : Except Fault Nat × World :=
  match CommandLine.read arguments with
  | .error .refused => (.ok 2, World.start x)
  | .ok r =>
    let w := World.start { x with args := r.scriptArgs, debugging := r.debugInternals }
    w.perform (body (columns x) r)

end Parley.Program
