import Parley.Constant

/-!
# Expressions

The syntax trees of the shell's language. Besides statements and expressions there are the lists
that they are put together from while they are read.

A function literal carries the number of its `site`. A site remembers the scope in which its
literal was first evaluated, so two literals with the same text are told apart by their numbers;
`Expr.placed` gives out the numbers.
-/

namespace Parley

/-- Nodes without any content, from which modules build their own. -/
inductive Bare where
  | node
  | object
  | function
  deriving DecidableEq, Repr

/-- A syntax tree. -/
inductive Expr where
  | lookup (name : String)
  | constant (value : Constant)
  | array (elements : List Expr)
  | object (properties : List (String × Expr))
  | closure (site : Nat) (params : List String) (body : Expr)
  | block (parts : List Expr)
  | member (whole : Expr) (name : String)
  | define (name : String)
  | exit
  | ifThen (condition yes no : Expr)
  | assign (target value : Expr)
  | importName (name : String)
  | helpAll
  | help (what : Expr)
  | attempt (body : Expr)
  | call (function : Expr) (args : List (String × Expr))
  | opCall (operator left right : Expr)
  | subscript (whole index : Expr)
  | group (inner : Expr)
  | negate (inner : Expr)
  | elementList (elements : List Expr)
  | paramList (params : List String)
  | arg (name : String) (value : Expr)
  | argList (args : List (String × Expr))
  | bare (kind : Bare)

namespace Expr

instance : Inhabited Expr := ⟨.exit⟩

/-- The name of the kind of a tree. -/
def label : Expr → String
  | lookup _ => "Variable"
  | constant c => c.label
  | array _ => "Array"
  | object _ => "DictObject"
  | closure _ _ _ => "Closure"
  | block _ => "Block"
  | member _ _ => "ObjectRef"
  | define _ => "Define"
  | exit => "Exit"
  | ifThen _ _ _ => "IfThen"
  | assign _ _ => "Assignment"
  | importName _ => "Import"
  | helpAll | help _ => "Describe"
  | attempt _ => "TryException"
  | call _ _ => "Call"
  | opCall _ _ _ => "OpCall"
  | subscript _ _ => "Subscript"
  | group _ => "Group"
  | negate _ => "Not"
  | elementList _ => "ElementList"
  | paramList _ => "ParamList"
  | arg _ _ => "Arg"
  | argList _ => "ArgList"
  | bare .node => "Eval"
  | bare .object => "Object"
  | bare .function => "Function"

/-- The name by which help speaks of a tree. -/
def name? : Expr → Option String
  | lookup name => some name
  | member whole name =>
    match whole.name? with
    | some outer => some (if outer.isEmpty then name else outer ++ "." ++ name)
    | none => some name
  | _ => none

/-- Is the result of such a statement printed on a terminal? -/
def printable : Expr → Bool
  | define _ | assign _ _ | importName _ | helpAll | help _ | exit => false
  | _ => true

/-- Writes an entry of an argument list: in the place of the old one if the name is there. -/
def putArg (name : String) (value : Expr) : List (String × Expr) → List (String × Expr)
  | [] => [(name, value)]
  | (k, v) :: rest => if k = name then (k, value) :: rest else (k, v) :: putArg name value rest

mutual

/-- The tree with its function literals numbered from `next` on, and the next free number. -/
def placed (next : Nat) : Expr → Expr × Nat
  | closure _ params body =>
    let (body, next') := placed (next + 1) body
    (closure next params body, next')
  | array es =>
    let (es, next) := placedAll next es
    (array es, next)
  | object ps =>
    let (ps, next) := placedArgs next ps
    (object ps, next)
  | block es =>
    let (es, next) := placedAll next es
    (block es, next)
  | member whole name =>
    let (whole, next) := placed next whole
    (member whole name, next)
  | ifThen c y n =>
    let (c, next) := placed next c
    let (y, next) := placed next y
    let (n, next) := placed next n
    (ifThen c y n, next)
  | assign target value =>
    let (target, next) := placed next target
    let (value, next) := placed next value
    (assign target value, next)
  | help what =>
    let (what, next) := placed next what
    (help what, next)
  | attempt body =>
    let (body, next) := placed next body
    (attempt body, next)
  | call f args =>
    let (f, next) := placed next f
    let (args, next) := placedArgs next args
    (call f args, next)
  | opCall op left right =>
    let (op, next) := placed next op
    let (left, next) := placed next left
    let (right, next) := placed next right
    (opCall op left right, next)
  | subscript whole index =>
    let (whole, next) := placed next whole
    let (index, next) := placed next index
    (subscript whole index, next)
  | group inner =>
    let (inner, next) := placed next inner
    (group inner, next)
  | negate inner =>
    let (inner, next) := placed next inner
    (negate inner, next)
  | elementList es =>
    let (es, next) := placedAll next es
    (elementList es, next)
  | arg name value =>
    let (value, next) := placed next value
    (arg name value, next)
  | argList args =>
    let (args, next) := placedArgs next args
    (argList args, next)
  | e => (e, next)

/-- `placed` for a list of trees. -/
def placedAll (next : Nat) : List Expr → List Expr × Nat
  | [] => ([], next)
  | e :: es =>
    let (e, next) := placed next e
    let (es, next) := placedAll next es
    (e :: es, next)

/-- `placed` for named trees. -/
def placedArgs (next : Nat) : List (String × Expr) → List (String × Expr) × Nat
  | [] => ([], next)
  | (k, e) :: es =>
    let (e, next) := placed next e
    let (es, next) := placedArgs next es
    ((k, e) :: es, next)

end

end Expr

end Parley
