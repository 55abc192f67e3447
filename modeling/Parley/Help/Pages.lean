import Parley.Eval.Member
import Parley.Help.Wrapping
import Parley.Token.Lexer

/-!
# Help

What `help` prints: about everything that is defined, or about one value, with its parameters or
properties.
-/

namespace Parley.Help

open Act

/-- What the shell says when it starts. -/
def leader : String :=
  "REST Shell\n\nUse the \"help\" command to get help, and \"exit\" to exit the shell."

/-- What stands above the list of names. -/
def general : String :=
  "Below are the currently defined variables and operators. You can get additional help about " ++
    "each of them like so:\n\n$ help [variable]"

/-- Prints text, wrapped. -/
def printWrapped (text : String) : Act Unit := do
  (wrap (← get).console.width text).forM print

/-- A noun with its article. -/
def article (word : String) : Except Fault String :=
  match word.toList with
  | [] => .error .textIndex
  | c :: _ => .ok (if "aeiou".toList.contains c then "an " ++ word else "a " ++ word)

/-- The first item of a datum, as text, when a type is looked at. -/
def firstOf : Data → Except Fault Data
  | .str s =>
    match s.toList with
    | [] => .error .textIndex
    | c :: _ => .ok (.str c.toString)
  | .list [] => .error .listIndex
  | .list (d :: _) => .ok d
  | .dict _ => .error (.missingNumber 0)
  | d => .error (.notSubscriptable d.kind)

/-- Does a type begin with the mark of arguments that may be left out? -/
def isOptional (type : Data) : Except Fault Bool := do
  match ← firstOf type with
  | .str "?" => .ok true
  | _ => .ok false

/-- A type without its first character. -/
def required : Data → Data
  | .str s => .str (String.ofList (s.toList.drop 1))
  | d => d

/-- One line for every parameter. -/
def paramLines : Data.Entries → Except Fault String
  | [] => .ok ""
  | (name, type) :: rest => do
    let optional ← isOptional type
    let text := if optional then (required type).text ++ " (optional)" else type.text
    let more ← paramLines rest
    .ok ("\t" ++ name ++ ": " ++ text ++ "\n" ++ more)

/-- The parameters of a function. -/
def function (scope : Nat) (v : Value) : Act Unit := do
  let params ← paramsOf scope v
  if params.truthy then
    let entries ← ofResult (params.entries "items")
    let lines ← ofResult (paramLines entries)
    printWrapped (s!"It takes {entries.length} arguments:\n" ++ lines)
  else printWrapped "It takes no arguments."

/-- One line for every property. -/
def propertyLines (scope : Nat) (v : Value) (service : Bool) : List String → Act String
  | [] => return ""
  | name :: rest => do
    let held ← deref (← member scope v name)
    let type := if service then "function" else held.typeName
    let more ← propertyLines scope v service rest
    return "\t" ++ name ++ ": " ++ type ++ "\n" ++ more

/-- The properties of an object. -/
def object (scope : Nat) (v : Value) : Act Unit := do
  let known ←
    match v with
    | .service _ name => getStore fun s => s.service? scope name
    | _ => pure none
  let names ←
    match known with
    | some s => pure (s.callNames ++ ServiceMethod.all.map ServiceMethod.name)
    | none => pure ((← propertyNames v).getD [])
  let lines ← propertyLines scope v known.isSome names
  printWrapped (s!"It has {names.length} properties:\n" ++ lines)

/-- The kind of a value, with its article. -/
def kindText (v : Value) : Except Fault String :=
  if v.typeName == "null" then .ok "null" else article v.typeName

/-- What is said after the kind of a value: the parameters or properties. -/
def details (scope : Nat) (v : Value) (kind : String) : Act Unit := do
  if kind == "a function" then function scope v
  else if kind == "an object" then object scope v

/-- Help about a value. -/
def value (scope : Nat) (name : String) (v : Value) : Act Unit := do
  let kind ← ofResult (kindText v)
  printWrapped (name ++ " is " ++ kind ++ "\n")
  match ← descriptionOf v with
  | .null => pure ()
  | .str s => printWrapped (s ++ "\n")
  | d => throw (.addition d.kind "str")
  details scope v kind

/-- Help about a variable, without what is said about its value. -/
def named (scope : Nat) (name : String) : Act Unit := do
  let v ← lookupValue scope name
  let kind ← ofResult (kindText v)
  printWrapped (name ++ " is " ++ kind ++ "\n")
  details scope v kind

/-- Is the text a name, with nothing after it but perhaps a line feed? -/
def isNameText (s : String) : Bool :=
  match s.toList with
  | [] => false
  | c :: rest =>
    Text.isNameStart c &&
      match rest.dropWhile Text.isNamePart with
      | [] => true
      | ['\n'] => true
      | _ => false

/-- Is the text an operator of those that help lists? -/
def isOperatorText (s : String) : Bool :=
  match s.toList.span fun c => "-+*/|&^$@?~".toList.contains c with
  | ([], _) => false
  | (_, []) => true
  | (_, ['\n']) => true
  | _ => false

/-- The names of a scope and of its base, those of the base first. -/
def namesAround (s : Store) (scope : Nat) : Except Fault (List String) :=
  match (s.scopeAt scope).base with
  | none => .error (.noAttribute "NoneType" "variables")
  | some base =>
    let outer := (s.scopeAt base).names.map Prod.fst
    let inner := (s.scopeAt scope).names.map Prod.fst
    .ok (outer ++ inner.filter fun n => !outer.contains n)

/-- Does a variable hold a function? -/
def holdsFunction (scope : Nat) (name : String) : Act Bool := do
  match ← lookupValue scope name with
  | .setting _ => throw (.noAttribute "str" "isType")
  | v => return v.hasType "function"

/-- Help about everything that is defined. -/
def environment (scope : Nat) : Act Unit := do
  let names ← ofResult (namesAround (← get).store scope)
  let words := names.filter isNameText
  let plain ← words.filterM fun n => return !(← holdsFunction scope n)
  let functions ← words.filterM fun n => holdsFunction scope n
  printWrapped general
  print "\nVariables:"
  printWrapped (Text.joinWith ", " plain)
  print "\nFunctions:"
  printWrapped (Text.joinWith ", " functions)
  print "\nOperators:"
  printWrapped (Text.joinWith ", " (names.filter isOperatorText))

end Parley.Help
