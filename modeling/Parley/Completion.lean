import Parley.Eval.Member

/-!
# Completion

What may be meant by the beginning of a word: a command or a variable of the scope, or, behind a
dotted path, a property of what the path leads to. The path is the longest one that the text ends
with.

The properties that are offered are those that begin like the last name *inside* the path; the word
that is being typed only counts if the path is a single name.
-/

namespace Parley.Completion

/-- The words that begin statements. -/
def commands : List String := ["help", "exit", "import", "let"]

/-- May a name begin with this character? -/
def beginsName (c : Char) : Bool :=
  c == '_' || c.isAlpha

/-- Is this a name? -/
def isName (cs : List Char) : Bool :=
  match cs with
  | [] => false
  | c :: rest => beginsName c && rest.all fun d => d == '_' || d.isAlphanum

/-- Is this a path: a name, followed by names and gaps with points before them? -/
def isPath (cs : List Char) : Bool :=
  match Text.cutAt '.' cs with
  | [] => false
  | first :: rest => isName first && rest.all fun part => part.isEmpty || isName part

/-- The longest path that the characters end with. -/
def pathEnding? : List Char → Option (List Char)
  | [] => none
  | c :: rest => if isPath (c :: rest) then some (c :: rest) else pathEnding? rest

/-- The parts of the path that a text ends with; a line feed at the end does not count. -/
def pathIn? (text : String) : Option (List String) :=
  let cs :=
    match text.toList.reverse with
    | '\n' :: rest => rest.reverse
    | _ => text.toList
  (pathEnding? cs).map fun path => (Text.cutAt '.' path).map String.ofList

/-- Commands and names that can be typed. -/
def words (names : List String) : List String :=
  commands ++ names.filter fun name => name.toList.head?.any beginsName

end Parley.Completion

namespace Parley.Act

/-- A member of what a path has led to. A cell is not looked into, and an array has members by
number only. -/
def memberOf (scope : Nat) (whole : Answer) (name : String) : Act Answer := do
  match whole with
  | .cell _ => throw (.noAttribute "Cell" "get")
  | .value (.array _) => throw (.notComparable "<" "str" "int")
  | .value v => if v.isObject then member scope v name else throw (.noAttribute v.label "get")

/-- The names of the properties of what a path has led to. -/
def namesOf (whole : Answer) : Act (List String) := do
  match whole with
  | .cell _ => throw (.noAttribute "Cell" "properties")
  | .value v =>
    match ← propertyNames v with
    | some names => return names
    | none => throw (.noAttribute v.label "properties")

/-- Follows a path; gaps are passed over. What it leads to, and the last name on it. -/
def followPath (scope : Nat) : Answer → String → List String → Act (Answer × String)
  | whole, last, [] => return (whole, last)
  | whole, last, name :: rest => do
    if name.isEmpty then followPath scope whole last rest
    else followPath scope (← memberOf scope whole name) name rest

/-- What a text may go on as. -/
def suggestions (scope : Nat) (text : String) : Act (List String) := do
  let words := Completion.words ((← scopeAt scope).names.map Prod.fst)
  match Completion.pathIn? text with
  | none | some [] => return words
  | some [word] => return words.filter fun w => Text.beginsWith word.toList w.toList
  | some (first :: second :: rest) =>
    let v ← lookupValue scope first
    let inner := (second :: rest).dropLast
    let (whole, last) ← followPath scope (.value v) second inner
    let names := (← namesOf whole).filter fun n => Text.beginsWith last.toList n.toList
    let path := Text.joinWith "." (first :: inner)
    return names.map fun n => path ++ "." ++ n

/-- What a text may go on as; a failure is printed, and nothing is offered. -/
def completions (scope : Nat) (text : String) : Act (List String) := do
  try suggestions scope text
  catch f =>
    print ("ex: " ++ f.message)
    return []

end Parley.Act
