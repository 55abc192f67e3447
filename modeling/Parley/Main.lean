import Parley.Program

/-!
# The executable

The thin layer around `Program.run`: it collects what the program may look at, runs it, prints what
was written and puts the files in place that were changed. The standard input is taken as a whole,
if the program reads it at all; to find that out it is run once with nothing but an interruption
there.
-/

namespace Parley.Main

/-- How deeply folders are looked into. -/
def folderDepth : Nat := 3

/-- The names of environment variables that are passed on. -/
def variableNames : List String :=
  ["PATH", "HOME", "USER", "LOGNAME", "SHELL", "LANG", "TERM", "PWD", "TMPDIR", "EDITOR", "COLUMNS"]

/-- The environment variables that are set. -/
def environment : List String → IO (List (String × String))
  | [] => return []
  | name :: rest => do
    let more ← environment rest
    match ← IO.getEnv name with
    | some value => return (name, value) :: more
    | none => return more

/-- The text of a file, if there is one that can be read. -/
def textOf? (path : String) : IO (Option String) := do
  try return some (← IO.FS.readFile path)
  catch _ => return none

/-- Adds a file to a disk, if there is one. -/
def addFile (d : Disk) (path : String) : IO Disk := do
  match ← textOf? path with
  | some text => return d.put path text
  | none => return d

/-- The names in a folder; none if it is no folder. -/
def namesIn (path : String) : IO (List String) := do
  try
    let entries ← (← IO.FS.realPath path).readDir
    return entries.toList.map fun e => e.fileName
  catch _ => return []

/-- Adds the files below a folder to a disk. -/
def addFolder : Nat → Disk → String → IO Disk
  | 0, d, _ => return d
  | depth + 1, d, path => do
    let names ← namesIn path
    names.foldlM
      (fun d name => do
        let inner := path ++ "/" ++ name
        match ← textOf? inner with
        | some text => return d.put inner text
        | none => addFolder depth d inner)
      d

/-- The files within reach. -/
def disk (home : String) (named : List String) : IO Disk := do
  let working := (← IO.currentDir).toString
  let d : Disk := { root := "/", working, home, files := [], folders := [] }
  let d ← named.foldlM addFile d
  let d ← addFolder folderDepth d (home ++ "/.restsh")
  addFolder folderDepth d working

/-- The present moment, as the file system tells it. -/
def presentMoment : IO Instant := do
  let (handle, path) ← IO.FS.createTempFile
  handle.putStr " "
  handle.flush
  let time := (← path.metadata).modified
  IO.FS.removeFile path
  return ⟨time.sec * 1000000 + time.nsec.toNat / 1000⟩

/-- The lines of a stream. -/
partial def linesOf (stream : IO.FS.Stream) (lines : List (Option String)) :
    IO (List (Option String)) := do
  let line ← stream.getLine
  if line.isEmpty then return lines.reverse else linesOf stream (some line :: lines)

/-- Does the program read the standard input? -/
def readsInput (x : Surroundings) (arguments : List String) : Bool :=
  (Program.run { x with streams := [[none]] } arguments).2.transcript.opening.isSome

/-- Puts a file in its place on the real disk. -/
def putInPlace (file : String × String) : IO Unit := do
  let full := "/" ++ file.1
  IO.FS.createDirAll ("/" ++ Disk.parent file.1)
  IO.FS.writeFile full file.2

/-- Runs the shell with its arguments. -/
def start (arguments : List String) : IO UInt32 := do
  let passedOn ← environment variableNames
  let home := (passedOn.lookup "HOME").getD "/"
  let named :=
    match CommandLine.read arguments with
    | .ok r => r.environment ++ r.script.toList
    | .error _ => []
  let own := [home ++ "/.restshrc", home ++ "/.restsh_history"]
  let disk ← disk home (own ++ named)
  let stdin ← IO.getStdin
  let stdout ← IO.getStdout
  let typed ← stdin.isTty
  let terminal ← if typed then stdout.isTty else pure false
  let surroundings : Surroundings :=
    { args := [], environment := passedOn, terminal
      width := ((passedOn.lookup "COLUMNS").bind String.toNat?).getD 80
      debugging := false, disk
      network :=
        { replies := [], broker := none, asked := 0, ticks := 0, sent := [], token := "restsh" }
      streams := [[]], now := ← presentMoment }
  let lines ← if readsInput surroundings arguments then linesOf stdin [] else pure []
  let (result, world) := Program.run { surroundings with streams := [lines] } arguments
  stdout.putStr world.output
  stdout.flush
  (world.disk.newerThan disk).forM putInPlace
  match result with
  | .ok status => return UInt32.ofNat status
  | .error f =>
    IO.eprintln (f.label ++ ": " ++ f.message)
    return 1

end Parley.Main

/-- Runs the shell. -/
def main (arguments : List String) : IO UInt32 :=
  Parley.Main.start arguments
