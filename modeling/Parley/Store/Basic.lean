import Parley.Service.Definition
import Parley.Value.Shape

/-!
# The store

Everything that statements can change and share: cells with the values of variables, elements and
properties; the arrays and objects made of such cells; services; and the scopes in which names are
looked up. Things are added at the end and never removed, so an address stays good for ever.

A scope knows the scope it was made in, its base. Looking a name up goes from base to base. Writing
a name that a scope does not have takes over the cell of its base if the base itself has the name,
and makes a new cell otherwise.
-/

namespace Parley

/-- An array. One that has been evaluated is its own value; one that has not is evaluated to a new
array. -/
structure ArrayRecord where
  evaluated : Bool
  cells : List Nat

/-- An object, with what help says about it. -/
structure ObjectRecord where
  evaluated : Bool
  cells : List (String × Nat)
  description : Data

/-- A service as a value: the calls that have been asked for, each with what help says. -/
structure ServiceRecord where
  calls : List (String × Data)
  description : Data

/-- A scope. -/
structure Scope where
  /-- The scope in which this one was made; it has a smaller address. -/
  base : Option Nat
  /-- The names of this scope with their cells, in the order in which they were made. -/
  names : List (String × Nat)
  /-- The table of services. -/
  table : Nat
  /-- Is this the scope of the session? -/
  global : Bool
  /-- Is the reading of statements to go on? -/
  looping : Bool
  /-- Are errors inside the shell to end it? -/
  strict : Bool
  lastError : Option String
  /-- The number of the stream from which statements are read. -/
  input : Nat

/-- The store. -/
structure Store where
  cells : Array Value
  arrays : Array ArrayRecord
  objects : Array ObjectRecord
  services : Array ServiceRecord
  scopes : Array Scope
  tables : Array (List (String × Service))
  /-- The scope that each function literal captured, by site. -/
  captured : List (Nat × Nat)
  /-- The next number for sites and trees. -/
  fresh : Nat

namespace Store

/-- A store with nothing in it. -/
def empty : Store :=
  { cells := #[], arrays := #[], objects := #[], services := #[], scopes := #[], tables := #[],
    captured := [], fresh := 0 }

instance : Inhabited Store := ⟨empty⟩

/-! ### Cells -/

/-- The value in a cell. -/
def cellValue (s : Store) (cell : Nat) : Value :=
  s.cells[cell]?.getD .null

/-- The value of an answer. -/
def deref (s : Store) : Answer → Value
  | .value v => v
  | .cell c => s.cellValue c

/-- A new cell. -/
def newCell (s : Store) (v : Value) : Store × Nat :=
  ({ s with cells := s.cells.push v }, s.cells.size)

/-- Writes a cell. -/
def setCell (s : Store) (cell : Nat) (v : Value) : Store :=
  { s with cells := s.cells.setIfInBounds cell v }

/-- New cells for several values. -/
def newCells (s : Store) : List Value → Store × List Nat
  | [] => (s, [])
  | v :: rest =>
    let (s, c) := s.newCell v
    let (s, cs) := newCells s rest
    (s, c :: cs)

/-! ### Arrays, objects, services -/

/-- A new array of the given values. -/
def newArray (s : Store) (evaluated : Bool) (values : List Value) : Store × Value :=
  let (s, cells) := s.newCells values
  ({ s with arrays := s.arrays.push ⟨evaluated, cells⟩ }, .array s.arrays.size)

/-- A new object with the given properties. -/
def newObject (s : Store) (evaluated : Bool) (properties : List (String × Value))
    (description : Data) : Store × Value :=
  let (s, cells) := s.newCells (properties.map Prod.snd)
  let named := (properties.map Prod.fst).zip cells
  ({ s with objects := s.objects.push ⟨evaluated, named, description⟩ }, .object s.objects.size)

/-- A new service value. -/
def newService (s : Store) (name : String) : Store × Value :=
  ({ s with services := s.services.push ⟨[], .null⟩ }, .service s.services.size name)

/-- An array. -/
def arrayAt (s : Store) (address : Nat) : ArrayRecord :=
  s.arrays[address]?.getD ⟨true, []⟩

/-- An object. -/
def objectAt (s : Store) (address : Nat) : ObjectRecord :=
  s.objects[address]?.getD ⟨true, [], .null⟩

/-- A service value. -/
def serviceAt (s : Store) (address : Nat) : ServiceRecord :=
  s.services[address]?.getD ⟨[], .null⟩

/-- The next free number. -/
def takeFresh (s : Store) : Store × Nat :=
  ({ s with fresh := s.fresh + 1 }, s.fresh)

/-! ### Scopes -/

/-- Looks a name up among named cells. -/
def findName (name : String) : List (String × Nat) → Option Nat
  | [] => none
  | (k, c) :: rest => if k = name then some c else findName name rest

/-- A scope. -/
def scopeAt (s : Store) (scope : Nat) : Scope :=
  s.scopes[scope]?.getD
    { base := none, names := [], table := 0, global := false, looping := true, strict := false,
      lastError := none, input := 0 }

/-- Changes a scope. -/
def modifyScope (s : Store) (scope : Nat) (f : Scope → Scope) : Store :=
  { s with scopes := s.scopes.modify scope f }

/-- A scope of its own, with an empty table of services. -/
def newRoot (s : Store) : Store × Nat :=
  ({ s with
      tables := s.tables.push []
      scopes := s.scopes.push
        { base := none, names := [], table := s.tables.size, global := false, looping := true,
          strict := false, lastError := none, input := 0 } },
    s.scopes.size)

/-- A scope inside another one; they share the table of services. -/
def newChild (s : Store) (base : Nat) : Store × Nat :=
  ({ s with
      scopes := s.scopes.push
        { base := some base, names := [], table := (s.scopeAt base).table, global := false,
          looping := true, strict := false, lastError := none, input := 0 } },
    s.scopes.size)

/-- Has the scope itself a variable of this name? -/
def hasName (s : Store) (scope : Nat) (name : String) : Bool :=
  (findName name (s.scopeAt scope).names).isSome

/-- The cell of a variable, looked up from base to base. The first argument bounds the number of
scopes on the way; as bases have smaller addresses, the address of the scope is enough. -/
def findFrom (s : Store) : Nat → Nat → String → Option Nat
  | 0, scope, name => findName name (s.scopeAt scope).names
  | steps + 1, scope, name =>
    let sc := s.scopeAt scope
    match findName name sc.names with
    | some c => some c
    | none =>
      match sc.base with
      | some base => findFrom s steps base name
      | none => none

/-- The cell of a variable. -/
def find? (s : Store) (scope : Nat) (name : String) : Option Nat :=
  s.findFrom scope scope name

/-- The outermost scope around a scope. -/
def rootFrom (s : Store) : Nat → Nat → Nat
  | 0, scope => scope
  | steps + 1, scope =>
    match (s.scopeAt scope).base with
    | some base => rootFrom s steps base
    | none => scope

/-- The outermost scope around a scope. -/
def root (s : Store) (scope : Nat) : Nat :=
  s.rootFrom scope scope

/-- Gives a scope a name for a cell. -/
def bind (s : Store) (scope : Nat) (name : String) (cell : Nat) : Store :=
  s.modifyScope scope fun sc => { sc with names := sc.names ++ [(name, cell)] }

/-- The cell that a name of the base is taken over from. -/
def inherited? (s : Store) (scope : Nat) (name : String) : Option Nat :=
  match (s.scopeAt scope).base with
  | some base => findName name (s.scopeAt base).names
  | none => none

/-- Writes a variable of a scope and gives its cell. -/
def define (s : Store) (scope : Nat) (name : String) (v : Value) : Store × Nat :=
  match findName name (s.scopeAt scope).names with
  | some c => (s.setCell c v, c)
  | none =>
    match s.inherited? scope name with
    | some c => ((s.bind scope name c).setCell c v, c)
    | none =>
      let (s, c) := s.newCell v
      (s.bind scope name c, c)

/-! ### Services -/

/-- The services that a scope knows. -/
def servicesOf (s : Store) (scope : Nat) : List (String × Service) :=
  s.tables[(s.scopeAt scope).table]?.getD []

/-- A service that a scope knows. -/
def service? (s : Store) (scope : Nat) (name : String) : Option Service :=
  (s.servicesOf scope).find? (fun e => e.1 == name) |>.map Prod.snd

/-- Writes an entry of a table of services: in the place of the old one if there is one. -/
def putService (name : String) (service : Service) :
    List (String × Service) → List (String × Service)
  | [] => [(name, service)]
  | (k, v) :: rest =>
    if k = name then (k, service) :: rest else (k, v) :: putService name service rest

/-- Makes a service known to a scope. -/
def setService (s : Store) (scope : Nat) (name : String) (service : Service) : Store :=
  { s with tables := s.tables.modify (s.scopeAt scope).table (putService name service) }

/-! ### Shapes -/

/-- The contents of a value. The first argument bounds the depth. -/
def shapeFrom (s : Store) : Nat → Value → Shape
  | 0, v => .leaf v
  | depth + 1, v =>
    match v with
    | .array a => .array ((s.arrayAt a).cells.map fun c => shapeFrom s depth (s.cellValue c))
    | .object o =>
      .object ((s.objectAt o).cells.map fun p => (p.1, shapeFrom s depth (s.cellValue p.2)))
    | v => .leaf v

/-- The contents of a value. There are not more arrays and objects inside each other than there are
in the store, unless one contains itself; of that one the address is left in the contents, and nothing
can be written of it. -/
def shape (s : Store) (v : Value) : Shape :=
  s.shapeFrom (s.arrays.size + s.objects.size + 1) v

mutual

/-- Puts contents into the store; arrays and objects get new addresses. -/
def load (s : Store) : Shape → Store × Value
  | .leaf v => (s, v)
  | .array es =>
    let (s, vs) := loadAll s es
    s.newArray true vs
  | .object ps =>
    let (s, vs) := loadNamed s ps
    s.newObject true vs .null

/-- Puts several contents into the store. -/
def loadAll (s : Store) : List Shape → Store × List Value
  | [] => (s, [])
  | e :: rest =>
    let (s, v) := load s e
    let (s, vs) := loadAll s rest
    (s, v :: vs)

/-- Puts several named contents into the store. -/
def loadNamed (s : Store) : List (String × Shape) → Store × List (String × Value)
  | [] => (s, [])
  | (k, e) :: rest =>
    let (s, v) := load s e
    let (s, vs) := loadNamed s rest
    (s, (k, v) :: vs)

end

/-- Does a value count as true? -/
def truthy (s : Store) (v : Value) : Bool :=
  match v with
  | .array a => !(s.arrayAt a).cells.isEmpty
  | v => v.truthyLeaf

end Store

end Parley
