import Parley.Data.Basic

/-!
# Builtin functions

The functions that the shell brings along, by family: those that stand alone, the operators, and
those kept in the objects `http`, `time`, `file`, `session` and `set`. Here are their names, their
parameters with types, and what help says about them; what they do is told in the modules of the
families.

A type that begins with `?` marks an argument that may be left out.
-/

namespace Parley

/-- The functions that stand alone. -/
inductive CoreFunction where
  | size
  | eval
  | type
  | map
  | filter
  | reduce
  | rreduce
  | repeatWhile
  | string
  | boolean
  | integer
  | shell
  | grep
  | split
  | join
  | tojson
  | parsejson
  | b64encode
  | b64decode
  | print
  | get
  | set
  | source
  | defOperator
  deriving DecidableEq, Repr

/-- The operators. -/
inductive Operator where
  | equal
  | unequal
  | add
  | subtract
  | multiply
  | divide
  | less
  | greater
  | or
  | and
  | concat
  deriving DecidableEq, Repr

/-- The functions that send requests. -/
inductive HttpFunction where
  | get
  | post
  | head
  | delete
  | options
  deriving DecidableEq, Repr

/-- The functions on instants. -/
inductive TimeFunction where
  | now
  | parse
  | show
  | showhttp
  | timestamp
  | lt
  | gt
  deriving DecidableEq, Repr

/-- The functions on files. -/
inductive FileFunction where
  | read
  | write
  | append
  deriving DecidableEq, Repr

/-- The functions on sessions. -/
inductive SessionFunction where
  | save
  | open
  | clear
  deriving DecidableEq, Repr

/-- The functions on sets. -/
inductive SetFunction where
  | create
  | array
  deriving DecidableEq, Repr

/-- The builtin functions. -/
inductive Builtin where
  | core (f : CoreFunction)
  | operator (f : Operator)
  | http (f : HttpFunction)
  | time (f : TimeFunction)
  | file (f : FileFunction)
  | session (f : SessionFunction)
  | set (f : SetFunction)
  deriving DecidableEq, Repr

/-- Parameters with their types. -/
abbrev Params := List (String × String)

namespace CoreFunction

/-- All of them, in the order in which they are defined. -/
def all : List CoreFunction :=
  [ .size, .eval, .type, .map, .filter, .reduce, .rreduce, .repeatWhile, .string, .boolean,
    .integer, .shell, .grep, .split, .join, .tojson, .parsejson, .b64encode, .b64decode, .print,
    .get, .set, .source, .defOperator ]

/-- The name. -/
def name : CoreFunction → String
  | .size => "size"
  | .eval => "eval"
  | .type => "type"
  | .map => "map"
  | .filter => "filter"
  | .reduce => "reduce"
  | .rreduce => "rreduce"
  | .repeatWhile => "do"
  | .string => "string"
  | .boolean => "boolean"
  | .integer => "integer"
  | .shell => "sh"
  | .grep => "grep"
  | .split => "split"
  | .join => "join"
  | .tojson => "tojson"
  | .parsejson => "parsejson"
  | .b64encode => "b64encode"
  | .b64decode => "b64decode"
  | .print => "print"
  | .get => "get"
  | .set => "set"
  | .source => "source"
  | .defOperator => "defOperator"

/-- The parameters. -/
def params : CoreFunction → Params
  | .size | .type => [("of", "any")]
  | .eval => [("code", "string")]
  | .map | .filter => [("arr", "array"), ("fn", "function[item,index]")]
  | .reduce | .rreduce => [("arr", "array"), ("fn", "function[accum,item,index]")]
  | .repeatWhile => [("fn", "function[]")]
  | .string | .boolean | .integer => [("value", "any")]
  | .shell => [("cmd", "string")]
  | .grep => [("text", "string"), ("for", "string"), ("case", "?boolean")]
  | .split => [("text", "string"), ("on", "string")]
  | .join => [("with", "string"), ("arr", "array")]
  | .tojson => [("val", "any")]
  | .parsejson => [("str", "string")]
  | .b64encode => [("text", "string")]
  | .b64decode => [("b64", "string")]
  | .print => [("text", "string")]
  | .get => [("obj", "object"), ("name", "string")]
  | .set => [("var", "any"), ("value", "any")]
  | .source => [("file", "string")]
  | .defOperator => [("sym", "string"), ("func", "function")]

/-- What help says. -/
def description : CoreFunction → Option String
  | .size =>
    some ("Returns the number of elements in an array, object, or string, " ++
      "or the number of parameters to a function")
  | .eval => some "Evaluate a string as a restsh command"
  | .type => some "Get the type of a value"
  | .reduce => some "Reduce left-to-right"
  | .rreduce => some "Reduce right-to-left"
  | .repeatWhile => some "Call a function until it returns false"
  | .string => some "Convert a value into a string"
  | .grep => some "Search text for a regular expression"
  | .split => some "Split a string on a regular expression"
  | .join => some "Join the elements of an array into a string"
  | .tojson => some "Convert "
  | .b64encode => some "Encode a string as base-64"
  | .b64decode => some "Decode a base-64 as a string"
  | .get => some "Get a property of an object by name"
  | .set => some "Set or define a variable"
  | .defOperator => some "Define a new operator"
  | _ => none

end CoreFunction

namespace Operator

/-- All of them, in the order in which they are defined. -/
def all : List Operator :=
  [ .equal, .unequal, .add, .subtract, .multiply, .divide, .less, .greater, .or, .and, .concat ]

/-- The sign. -/
def name : Operator → String
  | .equal => "=="
  | .unequal => "~="
  | .add => "+"
  | .subtract => "-"
  | .multiply => "*"
  | .divide => "/"
  | .less => "<"
  | .greater => ">"
  | .or => "||"
  | .and => "&&"
  | .concat => "|"

/-- The type of both sides. -/
def sideType : Operator → String
  | .equal | .unequal => "any"
  | .or | .and => "boolean"
  | .concat => "string"
  | _ => "number"

/-- The parameters. -/
def params (o : Operator) : Params :=
  [("left", o.sideType), ("right", o.sideType)]

end Operator

namespace HttpFunction

/-- All of them, in the order in which they are defined. -/
def all : List HttpFunction :=
  [.get, .post, .head, .delete, .options]

/-- The name. -/
def name : HttpFunction → String
  | .get => "get"
  | .post => "post"
  | .head => "head"
  | .delete => "delete"
  | .options => "options"

/-- The parameters. -/
def params : HttpFunction → Params
  | .post => [("url", "string"), ("data", "string")]
  | _ => [("url", "string")]

end HttpFunction

namespace TimeFunction

/-- All of them, in the order in which they are defined. -/
def all : List TimeFunction :=
  [.now, .parse, .show, .showhttp, .timestamp, .lt, .gt]

/-- The name. -/
def name : TimeFunction → String
  | .now => "now"
  | .parse => "parse"
  | .show => "show"
  | .showhttp => "showhttp"
  | .timestamp => "timestamp"
  | .lt => "lt"
  | .gt => "gt"

/-- The parameters. -/
def params : TimeFunction → Params
  | .now => []
  | .parse => [("str", "string")]
  | .show | .showhttp => [("time", "time"), ("tz", "string")]
  | .timestamp => [("time", "time")]
  | .lt | .gt => [("left", "time"), ("right", "time")]

/-- What help says. -/
def description : TimeFunction → String
  | .now => "Returns a new Time object with the current time and date."
  | .parse => "Generically parse a date/time string."
  | .show => "Convert a Time to a string in ISO format."
  | .showhttp => "Convert a Time to a string in HTTP request format."
  | .timestamp => "Convert a Time to a Unix timestamp."
  | .lt => "Returns true if the 'left' argument is before (less than) the 'right'."
  | .gt => "Returns true if the 'left' argument is after (greather than) the 'right'."

end TimeFunction

namespace FileFunction

/-- All of them, in the order in which they are defined. -/
def all : List FileFunction :=
  [.read, .write, .append]

/-- The name. -/
def name : FileFunction → String
  | .read => "read"
  | .write => "write"
  | .append => "append"

/-- The parameters. -/
def params : FileFunction → Params
  | .read => [("file", "string")]
  | .write | .append => [("file", "string"), ("text", "string")]

/-- What help says. -/
def description : FileFunction → String
  | .read => "Read a text file into a string"
  | .write | .append => "Write a string to a file"

end FileFunction

namespace SessionFunction

/-- All of them, in the order in which they are defined. -/
def all : List SessionFunction :=
  [.save, .open, .clear]

/-- The name. -/
def name : SessionFunction → String
  | .save => "save"
  | .open => "open"
  | .clear => "clear"

/-- The parameters. -/
def params : SessionFunction → Params
  | .save => [("name", "?string")]
  | .open => [("name", "string")]
  | .clear => []

/-- What help says. -/
def description : SessionFunction → String
  | .save => "Save the current session. Saves to the current session if no name is provided."
  | .open => "Load a saved session. Loads the current session if no name is provided."
  | .clear => "Clear the current session of new definitions and services."

end SessionFunction

namespace SetFunction

/-- All of them, in the order in which they are defined. -/
def all : List SetFunction :=
  [.create, .array]

/-- The name. -/
def name : SetFunction → String
  | .create => "create"
  | .array => "array"

/-- The parameters. -/
def params : SetFunction → Params
  | .create => [("from", "array")]
  | .array => [("set", "set")]

/-- What help says. -/
def description : SetFunction → String
  | .create => "Create a set from the elements of an array"
  | .array => "Return the elements of a set as an array"

end SetFunction

namespace Builtin

/-- The name of a builtin function. -/
def name : Builtin → String
  | .core f => f.name
  | .operator f => f.name
  | .http f => f.name
  | .time f => f.name
  | .file f => f.name
  | .session f => f.name
  | .set f => f.name

/-- The parameters of a builtin function. -/
def params : Builtin → Params
  | .core f => f.params
  | .operator f => f.params
  | .http f => f.params
  | .time f => f.params
  | .file f => f.params
  | .session f => f.params
  | .set f => f.params

/-- What help says about a builtin function. -/
def description : Builtin → Option String
  | .core f => f.description
  | .operator _ | .http _ => none
  | .time f => some f.description
  | .file f => some f.description
  | .session f => some f.description
  | .set f => some f.description

end Builtin

end Parley
