import Parley.Eval.Task

/-!
# The world at the start

A session begins with a base scope, which holds the arguments, the process environment, the
constants, the settings of the shell and its builtin functions, and with a scope inside it for the
variables of the session itself.
-/

namespace Parley

/-- What the shell finds when it is started. -/
structure Surroundings where
  args : List String
  /-- The process environment. -/
  environment : List (String × String)
  terminal : Bool
  width : Nat
  /-- Are the shell's own workings shown, and its own failures fatal? -/
  debugging : Bool
  disk : Disk
  network : Network
  /-- The lines of the standard input, and of further streams of the session. -/
  streams : List (List (Option String))
  now : Instant

namespace Surroundings

/-- The functions that stand alone and the operators, by name. -/
def standing : List (String × Value) :=
  (CoreFunction.all.map fun f => (f.name, Value.builtin (.core f) 0)) ++
    (Operator.all.map fun o => (o.name, Value.builtin (.operator o) 0))

/-- The objects with functions, with what help says about them. -/
def modules : List (String × List (String × Value) × String) :=
  [ ("http", HttpFunction.all.map fun f => (f.name, Value.builtin (.http f) 0),
      "Functions for making simple HTTP requests."),
    ("time", TimeFunction.all.map fun f => (f.name, Value.builtin (.time f) 0),
      "Functions to create and manipulate Time."),
    ("file", FileFunction.all.map fun f => (f.name, Value.builtin (.file f) 0),
      "Functions for working with files"),
    ("session",
      ("current", Value.text "") ::
        SessionFunction.all.map fun f => (f.name, Value.builtin (.session f) 0),
      "Session management") ]

/-- The constants and the settings of the shell. -/
def constants : List (String × Value) :=
  [ (World.resultName, .null), ("null", .null), ("true", .constant (.bool true)),
    ("false", .constant (.bool false)), ("*prompt", .setting "$ "), ("*continue", .setting ".  "),
    ("*resultcolor", .setting "green") ]

/-- Defines variables. -/
def defineAll (scope : Nat) (s : Store) : List (String × Value) → Store
  | [] => s
  | (name, v) :: rest => defineAll scope (s.define scope name v).1 rest

/-- Defines the objects with functions; gives the address of the last one, too. -/
def defineModules (scope : Nat) : Store × Nat → List (String × List (String × Value) × String) →
    Store × Nat
  | result, [] => result
  | (s, _), (name, functions, description) :: rest =>
    let address := s.objects.size
    let (s, v) := s.newObject false functions (.str description)
    defineModules scope ((s.define scope name v).1, address) rest

/-- The store with the base scope and all it holds, and the object with the settings. -/
def base (x : Surroundings) : Store × Nat :=
  let root := Store.empty.newRoot
  let args := root.1.load (.array (x.args.map fun a => .leaf (.text a)))
  let env := args.1.load (.object (x.environment.map fun p => (p.1, .leaf (.text p.2))))
  let s := defineAll root.2 env.1 [("args", args.2), ("env", env.2)]
  let s := defineAll root.2 s (constants ++ standing)
  defineModules root.2 (s, 0) modules

/-- The store at the start, the scope of the session and the object with its settings. The base
scope is the first one. -/
def store (x : Surroundings) : Store × Nat × Nat :=
  let child := x.base.1.newChild 0
  let s := child.1.modifyScope child.2 fun sc => { sc with global := true, strict := x.debugging }
  (s, child.2, x.base.2)

end Surroundings

/-- The world at the start of a session. -/
def World.start (x : Surroundings) : World :=
  let (store, session, settings) := x.store
  { store
    console := { terminal := x.terminal, width := x.width, tracing := x.debugging, written := "" }
    disk := x.disk
    network := x.network
    streams := x.streams.toArray
    ownStreams := x.streams.length
    session
    settings
    transcript := { opening := none, entries := [] }
    now := x.now }

end Parley
