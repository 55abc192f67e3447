import Parley.Builtin.Guard
import Parley.Builtin.Shell
import Parley.Data.Json
import Parley.Eval.Member
import Parley.Pattern.Matching
import Parley.Text.Base64
import Parley.Text.Utf8
import Parley.Token.Lexer

/-!
# The functions that stand alone

What each of them does, given the means to call functions and to read statements.
-/

namespace Parley.Act

/-! ### Values -/

/-- The number of parts of a value; null for values without parts. -/
def sizeOf (scope : Nat) (v : Value) : Act Value := do
  let count (n : Nat) : Value := .constant (.int n)
  match v with
  | .array address => return count (← getStore fun s => s.arrayAt address).cells.length
  | .service _ name => return count (← serviceOf scope name).calls.length
  | .constant (.text s) => return count s.length
  | .constant .noText => throw (.noLength "NoneType")
  | v =>
    if v.isFunction then
      match ← paramsOf scope v with
      | .dict es => return count es.length
      | .list xs | .set xs => return count xs.length
      | .str s => return count s.length
      | d => throw (.noLength d.kind)
    else
      match ← propertyNames v with
      | some names => return count names.length
      | none => lookupValue scope "null"

/-- The name of the type of a value. -/
def typeOf (v : Value) : Act String := do
  match v with
  | .constant _ => return v.typeName
  | .array _ => return "array"
  | v =>
    if v.isFunction then return "function"
    else if v.isObject then return "object"
    else throw (.unboundName "typeName")

/-- A value as text: text as it is, everything else as it is shown. -/
def toText (v : Value) : Act Value := do
  match v with
  | .constant (.text _) | .constant .noText => return v
  | v => return .text (← shown v)

/-- A value as an integer; zero where nothing better is known. -/
def toInteger (v : Value) : Act Int := do
  match v with
  | .constant (.int n) => return n
  | .constant (.text s) => return (Number.intOfText? s).getD 0
  | .constant (.bool b) => return if b then 1 else 0
  | .constant (.float x) =>
    match Number.truncate? x with
    | some n => return n
    | none => throw (if x.isNaN then .undefinedToInt else .infinityToInt)
  | _ => return 0

/-! ### Going through arrays -/

/-- Calls a function for an item at an index. -/
def callItem (run : Run) (scope : Nat) (f item : Value) (index : Nat) : Act Answer :=
  run (.apply scope f [("item", .value item), ("index", constant (.int index))])

/-- The results of a function for every element. -/
def mapCells (run : Run) (scope : Nat) (f : Value) : Nat → List Nat → Act (List Value)
  | _, [] => return []
  | index, c :: rest => do
    let item ← deref (.cell c)
    let v ← deref (← callItem run scope f item index)
    let more ← mapCells run scope f (index + 1) rest
    return v :: more

/-- The elements for which a function gives something that counts as true. -/
def filterCells (run : Run) (scope : Nat) (f : Value) : Nat → List Nat → Act (List Value)
  | _, [] => return []
  | index, c :: rest => do
    let item ← deref (.cell c)
    let keep ← deref (← callItem run scope f item index)
    let kept ← if ← getStore fun s => s.truthy keep then pure [← deref (.cell c)] else pure []
    let more ← filterCells run scope f (index + 1) rest
    return kept ++ more

/-- Combines the elements with a function, one after the other. -/
def reduceCells (run : Run) (scope : Nat) (f : Value) : Answer → Nat → List Nat → Act Answer
  | accum, _, [] => return accum
  | accum, index, c :: rest => do
    let sofar ← deref accum
    let item ← deref (.cell c)
    let next ← run (.apply scope f
      [("accum", .value sofar), ("item", .value item), ("index", constant (.int index))])
    reduceCells run scope f next (index + 1) rest

/-- The number of rounds after which a repetition is given up. -/
def roundLimit : Nat := 1000000000

/-- Calls a function again and again until it gives something empty. -/
def repeatWhile (run : Run) (scope : Nat) (f : Value) : Nat → Act Unit
  | 0 => throw .nestedTooDeeply
  | rounds + 1 => do
    let a ← run (.apply scope f [])
    let d ← data (← deref a)
    if d.truthy then repeatWhile run scope f rounds

/-! ### Text -/

/-- The texts of the elements of an array, for joining. -/
def cellTexts : List Nat → Act (List String)
  | [] => return []
  | c :: rest => do
    let text ← pasted (← deref (.cell c))
    let more ← cellTexts rest
    return text :: more

/-- The piece of a split: text, or the place of a group that took no part. -/
def pieceValue : Option String → Value
  | some s => .text s
  | none => .constant .noText

/-- Does case matter in a search? It does only if the argument for it is given and true. -/
def caseMatters (args : Args) : Act Bool := do
  match args.lookup "case" with
  | none => return false
  | some a =>
    match ← deref a with
    | .constant (.bool b) => return b
    | .constant _ => return true
    | v => throw (.noAttribute v.label "getValue")

/-- The line that a text is printed as. -/
def printedText (v : Value) : Act String := do
  match v with
  | .constant (.text s) => return s
  | .constant .noText => return "None"
  | .constant c => return c.data.text
  | v => throw (.noAttribute v.label "getValue")

/-! ### Statements -/

/-- Evaluates text as statements, in a scope of its own. -/
def evalText (run : Run) (scope : Nat) (v : Value) : Act Answer := do
  match v with
  | .constant (.text code) =>
    let inner ← withStore fun s => s.newChild scope
    let stream ← openText code
    modifyScope inner fun sc => { sc with input := stream }
    run (.session inner)
  | v =>
    let text ← pasted v
    error scope ("Cannot eval non-string: " ++ text)

/-- Reads the statements of a file. After that the input is the standard input. -/
def sourceFile (run : Run) (scope : Nat) (path : String) : Act Answer := do
  let disk := (← get).disk
  let text ← ofResult (disk.read (disk.expandHome path))
  let stream ← openText text
  modifyScope scope fun sc => { sc with input := stream }
  andThen (run (.session scope))
    (modifyScope scope fun sc => { sc with input := 0, looping := true })

/-! ### Variables -/

/-- Is the text an operator, with nothing after it but perhaps a line feed? -/
def isOperatorName (s : String) : Bool :=
  match s.toList.span Token.isOperatorChar with
  | ([], _) => false
  | (_, []) => true
  | (_, ['\n']) => true
  | _ => false

/-- Defines an operator. -/
def defineOperator (scope : Nat) (sign : String) (f : Value) : Act Unit := do
  let params ←
    if f.isFunction then paramsOf scope f else throw (.noAttribute f.label "parameters")
  if !isOperatorName sign then
    error scope ("New operators may only contain these characters: " ++
      String.ofList Token.operatorChars)
  let hasLeft ← ofResult (params.holds "left")
  let hasRight ← if hasLeft then ofResult (params.holds "right") else pure false
  if !(hasLeft && hasRight) then
    error scope "Operator functions must take two parameters: 'left' and 'right'"
  let _ ← assign scope sign f

/-- Writes a variable, given by its name or as a cell. -/
def setVariable (scope : Nat) (args : Args) : Act Answer := do
  let target ← argument args "var"
  let value ← deref (← argument args "value")
  match target with
  | .value (.constant (.text name)) => return .cell (← assign scope name value)
  | .cell c =>
    modifyStore fun s => s.setCell c value
    return .cell c
  | .value _ => error scope "var must be either a string, or variable"

/-- The function of an argument. -/
def argFunction (args : Args) (name : String) : Act Value := do
  let v ← argValue args name
  if v.isFunction then return v else throw (.noAttribute v.label "call")

/-- What a function that stands alone does. -/
def core (run : Run) (scope : Nat) (f : CoreFunction) (args : Args) : Act Answer := do
  match f with
  | .size => return .value (← sizeOf scope (← argValue args "of"))
  | .eval => evalText run scope (← argValue args "code")
  | .type => return constant (.text (← typeOf (← argValue args "of")))
  | .map =>
    let cells ← argCells args "arr"
    let vs ← mapCells run scope (← argValue args "fn") 0 cells
    return .value (← withStore fun s => s.newArray false vs)
  | .filter =>
    let cells ← argCells args "arr"
    let vs ← filterCells run scope (← argValue args "fn") 0 cells
    return .value (← withStore fun s => s.newArray false vs)
  | .reduce =>
    let array ← argValue args "arr"
    let f ← argValue args "fn"
    let base ← argValue args "base"
    let cells ← argCells [("arr", .value array)] "arr"
    reduceCells run scope f (.value base) 0 cells
  | .rreduce =>
    let array ← argValue args "arr"
    let f ← argValue args "fn"
    let base ← argValue args "base"
    let cells ← argCells [("arr", .value array)] "arr"
    reduceCells run scope f (.value base) 0 cells.reverse
  | .repeatWhile =>
    repeatWhile run scope (← argFunction args "fn") roundLimit
    return nothing
  | .string => return .value (← toText (← argValue args "value"))
  | .boolean =>
    let v ← argValue args "value"
    return constant (.bool (← getStore fun s => s.truthy v))
  | .integer => return constant (.int (← toInteger (← argValue args "value")))
  | .shell => return constant (.text (Shell.run (← get).disk (← argString args "cmd")))
  | .grep =>
    let text ← argValue args "text"
    let pattern ← argString args "for"
    let flags : Pattern.Flags := { ignoreCase := !(← caseMatters args) }
    let regex ← ofResult (Pattern.compile flags pattern)
    return constant (.bool (regex.occursIn (← textValue text)))
  | .split =>
    let text ← argValue args "text"
    let pattern ← argString args "on"
    let regex ← ofResult (Pattern.compile {} pattern)
    let pieces := regex.split (← textValue text)
    return .value (← withStore fun s => s.newArray false (pieces.map pieceValue))
  | .join =>
    let joint ← argString args "with"
    let cells ← argCells args "arr"
    return constant (.text (Text.joinWith joint (← cellTexts cells)))
  | .tojson =>
    let v ← argValue args "val"
    return constant (.text (← written .json v))
  | .parsejson =>
    let d ← ofResult (Json.read (← argString args "str"))
    return .value (← load d)
  | .b64encode =>
    let text ← argString args "text"
    return constant (.text (String.ofList (Text.encodeBase64 (Text.utf8 text))))
  | .b64decode =>
    let bytes ← ofResult (Text.decodeBase64 (← argString args "b64"))
    return constant (.text (← ofResult (Text.decodeUtf8 bytes)))
  | .print =>
    print (← printedText (← argValue args "text"))
    return nothing
  | .get =>
    let name ← argString args "name"
    let v ← argValue args "obj"
    if v.isObject then member scope v name else throw (.noAttribute v.label "get")
  | .set => setVariable scope args
  | .source => sourceFile run scope (← argString args "file")
  | .defOperator =>
    let sign ← argString args "sym"
    defineOperator scope sign (← argValue args "func")
    return constant (.text sign)

/-- Carries out a function that stands alone. All but one report their failures and give values;
the one that writes variables gives the cell it has written. -/
def runCore (run : Run) (scope : Nat) (f : CoreFunction) (args : Args) : Act Answer := do
  match f with
  | .set => core run scope .set args
  | f =>
    let a ← reportOthers scope (do
      let a ← core run scope f args
      return Answer.value (← deref a))
    return a

end Parley.Act
