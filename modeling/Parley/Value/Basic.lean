import Parley.Builtin.Basic
import Parley.Expr.Basic

/-!
# Values

What variables hold. Constants are given by their content. Arrays, objects and services live in the
store and are given by their address there, so that two names can mean the same array. Functions
are told apart by where they come from.
-/

namespace Parley

/-- The functions that every service has besides its calls. -/
inductive ServiceMethod where
  | setHost
  | setAuthentication
  deriving DecidableEq, Repr

namespace ServiceMethod

/-- Both of them. -/
def all : List ServiceMethod :=
  [.setHost, .setAuthentication]

/-- The name. -/
def name : ServiceMethod → String
  | .setHost => "setHost"
  | .setAuthentication => "setAuthentication"

/-- The parameters. -/
def params : ServiceMethod → Params
  | .setHost => [("host", "string")]
  | .setAuthentication => [("auth", "string")]

/-- What help says. -/
def description : ServiceMethod → Option String
  | .setHost => none
  | .setAuthentication => some "Replace the authentication data for this service."

end ServiceMethod

/-- A value. -/
inductive Value where
  | constant (c : Constant)
  /-- A setting of the shell itself, such as its prompt: text that is no value of the language. -/
  | setting (text : String)
  | array (address : Nat)
  | object (address : Nat)
  | closure (site : Nat) (params : List String) (body : Expr)
  /-- A builtin function; `copy` tells those of a module that is loaded again from the first. -/
  | builtin (f : Builtin) (copy : Nat)
  | service (address : Nat) (name : String)
  | method (address : Nat) (service : String) (m : ServiceMethod)
  | remote (address : Nat) (service call : String)
  /-- A tree that stands for itself, told apart by its number. -/
  | tree (number : Nat) (e : Expr)

namespace Value

instance : Inhabited Value := ⟨.constant .null⟩

/-- The value of the null constant. -/
def null : Value := .constant .null

/-- A text as a value. -/
def text (s : String) : Value := .constant (.text s)

/-- The name of the kind of a value. -/
def label : Value → String
  | constant c => c.label
  | setting _ => "str"
  | array _ => "Array"
  | object _ => "DictObject"
  | closure _ _ _ => "Closure"
  | builtin _ _ | method _ _ _ => "Builtin"
  | service _ _ => "ServiceObject"
  | remote _ _ _ => "ServiceCall"
  | tree _ e => e.label

/-- The word for the kind of this name. -/
def typeWord (label : String) : String :=
  match label with
  | "Builtin" | "ServiceCall" => "function"
  | "ServiceObject" | "DictObject" => "object"
  | other => String.ofList (other.toList.map Char.toLower)

/-- The word for the kind of a value in help and messages. -/
def typeName (v : Value) : String :=
  typeWord v.label

/-- Can the value be called? -/
def isFunction : Value → Bool
  | closure _ _ _ | builtin _ _ | method _ _ _ | remote _ _ _ | tree _ (.bare .function) => true
  | _ => false

/-- Has the value properties? -/
def isObject : Value → Bool
  | object _ | service _ _ | tree _ (.bare .object) => true
  | v => v.isFunction

/-- Does one text begin with another? -/
def beginsWith (beginning s : String) : Bool :=
  beginning.toList.isPrefixOf s.toList

/-- Does a value fit a type? Of arrays, objects and functions only the first word of the type
counts. -/
def hasType (type : String) : Value → Bool
  | constant c => c.hasType type
  | setting _ => false
  | array _ => type == "any" || beginsWith "array" type || beginsWith "collection" type
  | v =>
    type == "any" ||
      (v.isObject && (beginsWith "object" type || beginsWith "collection" type)) ||
      (v.isFunction && beginsWith "function" type)

/-- Is the result of a statement with this value printed on a terminal? -/
def printable : Value → Bool
  | tree _ e => e.printable
  | _ => true

/-- The name by which help speaks of a value. -/
def name? : Value → Option String
  | service _ name => some name
  | tree _ e => e.name?
  | _ => none

/-- Does the value count as true, the arrays apart? Only null, zero and false do not. -/
def truthyLeaf : Value → Bool
  | constant c => c.truthy
  | _ => true

/-- Are two values the same? Constants are compared by content, all others by identity. -/
def equal : Value → Value → Bool
  | constant a, constant b => a.equal b
  | array a, array b => a == b
  | object a, object b => a == b
  | closure a _ _, closure b _ _ => a == b
  | builtin f a, builtin g b => f == g && a == b
  | service a _, service b _ => a == b
  | method a _ m, method b _ n => a == b && m == n
  | remote a _ c, remote b _ d => a == b && c == d
  | tree a _, tree b _ => a == b
  | _, _ => false

end Value

/-- What an expression gives: a value, or a cell that holds one and can be written to. -/
inductive Answer where
  | value (v : Value)
  | cell (address : Nat)

instance : Inhabited Answer := ⟨.value .null⟩

end Parley
