import Parley.Store.Basic
import Parley.World.Disk
import Parley.World.Network
import Parley.World.Terminal

/-!
# The world of a session

Everything a statement can see or change: the store, the console, the files, the network and the
streams that statements are read from. Evaluation is a function of the world; `Act` is its monad. A
fault leaves the world as it was when it happened.

Lines of the session itself are set down in a transcript: for every line that is read the output
until the next one, and the last result at that moment.
-/

namespace Parley

/-- The console. -/
structure Console where
  terminal : Bool
  width : Nat
  /-- Does the shell show its own work? -/
  tracing : Bool
  /-- The output since the last line was read. -/
  written : String
  /-- The commands about colours that have been given, the latest first. An output that is no terminal
  gets to see none of them. -/
  commands : List Terminal.Command := []

/-- What happened from one line to the next. -/
structure Entry where
  output : String
  kind : String
  value : Except Fault String

/-- The transcript of a session. -/
structure Transcript where
  /-- The output before the first line; none while no line has been read. -/
  opening : Option String
  entries : List Entry

/-- The world of a session. -/
structure World where
  store : Store
  console : Console
  disk : Disk
  network : Network
  /-- The lines that the streams still hold; `none` is an interruption. Stream 0 is the standard
  input. -/
  streams : Array (List (Option String))
  /-- Streams below this number are those of the session itself. -/
  ownStreams : Nat
  /-- The scope of the session. -/
  session : Nat
  /-- The object with the settings of the session. -/
  settings : Nat
  transcript : Transcript
  /-- The present moment. -/
  now : Instant

namespace World

/-- The name of the variable that holds the last result. -/
def resultName : String := "__result"

/-- The last result of the session at this moment. -/
def lastResult (w : World) : Value :=
  match w.store.find? w.session resultName with
  | some cell => w.store.cellValue cell
  | none => .null

/-- The entry for the line that has been dealt with. -/
def entry (w : World) : Entry :=
  let v := w.lastResult
  { output := w.console.written, kind := v.label,
    value := ((w.store.shape v).write .shown).result }

/-- Sets down in the transcript what happened since the last line. -/
def mark (w : World) : World :=
  let transcript :=
    match w.transcript.opening with
    | none => { w.transcript with opening := some w.console.written }
    | some _ => { w.transcript with entries := w.transcript.entries ++ [w.entry] }
  { w with transcript, console := { w.console with written := "" } }

/-- Everything that has been written. -/
def output (w : World) : String :=
  w.transcript.opening.getD "" ++ String.join (w.transcript.entries.map Entry.output) ++
    w.console.written

end World

/-- A line of a stream: what it holds, or an interruption. -/
inductive Line where
  | text (s : String)
  | interrupted
  | atEnd

/-- An action in the world. -/
abbrev Act := ExceptT Fault (StateM World)

namespace Act

/-- Carries out a result or fault. -/
def ofResult {α : Type} (r : Except Fault α) : Act α :=
  match r with
  | .ok a => pure a
  | .error f => throw f

/-- A part of the store. -/
def getStore {α : Type} (f : Store → α) : Act α := do
  return f (← get).store

/-- Changes the store. -/
def modifyStore (f : Store → Store) : Act Unit :=
  modify fun w => { w with store := f w.store }

/-- Changes the store and gives something back. -/
def withStore {α : Type} (f : Store → Store × α) : Act α :=
  modifyGet fun w =>
    let (s, a) := f w.store
    (a, { w with store := s })

/-! ### Output -/

/-- Writes text. -/
def write (text : String) : Act Unit :=
  modify fun w => { w with console := { w.console with written := w.console.written ++ text } }

/-- Writes a line. -/
def print (line : String) : Act Unit :=
  write (line ++ "\n")

/-- Remembers a command about colours. -/
def command (c : Terminal.Command) : Act Unit :=
  modify fun w =>
    { w with console := { w.console with commands := c :: w.console.commands } }

/-- Chooses the colour of letters. -/
def foreground (name : String) : Act Unit := do
  write (← ofResult (Terminal.setForeground (← get).console.terminal name))
  command (.foreground name)

/-- Chooses the colour of the ground. -/
def background (name : String) : Act Unit := do
  write (← ofResult (Terminal.setBackground (← get).console.terminal name))
  command (.background name)

/-- Goes back to the usual colours. -/
def reset : Act Unit := do
  write (Terminal.reset (← get).console.terminal)
  command .reset

/-- Sets the title of the window. -/
def title (text : String) : Act Unit := do
  write (Terminal.setTitle (← get).console.terminal text)

/-- Shows a piece of the shell's own work. -/
def trace (note : String) : Act Unit := do
  if (← get).console.tracing then
    background "purple"
    write "   "
    reset
    print (" " ++ note)

/-- Shows several pieces of the shell's own work. -/
def traceAll (notes : List String) : Act Unit :=
  notes.forM trace

/-- Carries out a traced result: its notes are shown before it succeeds or fails. -/
def ofTraced {α : Type} (t : Traced Fault α) : Act α := do
  traceAll t.notes
  ofResult t.result

/-- Fails with a message, which is printed and remembered in the scope. -/
def error {α : Type} (scope : Nat) (message : String) : Act α := do
  foreground "red"
  print ("error: " ++ message)
  reset
  modifyStore fun s => s.modifyScope scope fun sc => { sc with lastError := some message }
  throw (.evaluation message)

/-! ### Values -/

/-- The value of an answer. -/
def deref (a : Answer) : Act Value :=
  getStore fun s => s.deref a

/-- A value in a style. -/
def written (style : Style) (v : Value) : Act String := do
  ofTraced ((← getStore fun s => s.shape v).write style)

/-- A value as the shell shows it. -/
def shown (v : Value) : Act String :=
  written .shown v

/-- A value as it is put inside other text. -/
def pasted (v : Value) : Act String :=
  written .pasted v

/-- The datum of a value. -/
def data (v : Value) : Act Data := do
  ofTraced (← getStore fun s => s.shape v).data

/-- The value of a datum, put into the store. -/
def load (d : Data) : Act Value := do
  let shape ← ofResult (Shape.ofData d)
  withStore fun s => s.load shape

/-! ### Variables -/

/-- The cell of a variable. -/
def lookup (scope : Nat) (name : String) : Act Nat := do
  match ← getStore fun s => s.find? scope name with
  | some cell => return cell
  | none =>
    let root ← getStore fun s => s.root scope
    error root ("Undefined variable: '" ++ name ++ "'")

/-- The value of a variable. -/
def lookupValue (scope : Nat) (name : String) : Act Value := do
  deref (.cell (← lookup scope name))

/-- Writes a variable and gives its cell. -/
def assign (scope : Nat) (name : String) (v : Value) : Act Nat :=
  withStore fun s => s.define scope name v

/-- The scope of an action. -/
def scopeAt (scope : Nat) : Act Scope :=
  getStore fun s => s.scopeAt scope

/-- Changes a scope. -/
def modifyScope (scope : Nat) (f : Scope → Scope) : Act Unit :=
  modifyStore fun s => s.modifyScope scope f

/-! ### Reading lines -/

/-- Reads a line from a stream. A line of the session itself begins a new entry of the
transcript. -/
def readLine (stream : Nat) : Act Line :=
  modifyGet fun w =>
    match w.streams[stream]?.getD [] with
    | [] => (.atEnd, w)
    | line :: rest =>
      let w := { w with streams := w.streams.setIfInBounds stream rest }
      let w := if stream < w.ownStreams then w.mark else w
      (match line with
        | some s => .text s
        | none => .interrupted, w)

/-- A new stream with the lines of a text. -/
def openText (text : String) : Act Nat :=
  modifyGet fun w =>
    (w.streams.size,
      { w with
        streams := w.streams.push ((Text.linesOf text.toList).map (some ∘ String.ofList)) })

end Act

end Parley
