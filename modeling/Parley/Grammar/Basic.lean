import Parley.Expr.Basic
import Parley.Token.Basic

/-!
# The grammar

The productions of the language, their rules, and what each rule builds. A rule is a list of parts:
a production, a token of some kind, or a tree that has already been built. The last sort of part is
how the grammar speaks of left recursion: in `tree . name` the tree stands on the stack before the
rule is tried.
-/

namespace Parley.Grammar

/-- The productions. -/
inductive Production where
  | expression
  | constant
  | boolean
  | variableName
  | operator
  | objectRef
  | elementList
  | array
  | paramList
  | closure
  | arg
  | argList
  | dictObject
  | call
  | opcall
  | attempt
  | subscript
  | group
  | ifthen
  | define
  | lvalue
  | rvalue
  | help
  | exit
  | importName
  | assignment
  | block
  | statement
  deriving DecidableEq, Repr

/-- All productions. -/
def Production.all : List Production :=
  [ .expression, .constant, .boolean, .variableName, .operator, .objectRef, .elementList, .array,
    .paramList, .closure, .arg, .argList, .dictObject, .call, .opcall, .attempt, .subscript, .group,
    .ifthen, .define, .lvalue, .rvalue, .help, .exit, .importName, .assignment, .block, .statement ]

/-- The name of a production in messages. -/
def Production.label : Production → String
  | .expression => "expression"
  | .constant => "constant"
  | .boolean => "boolean"
  | .variableName => "variable"
  | .operator => "operator"
  | .objectRef => "objectRef"
  | .elementList => "elementList"
  | .array => "array"
  | .paramList => "paramList"
  | .closure => "closure"
  | .arg => "arg"
  | .argList => "argList"
  | .dictObject => "dictObject"
  | .call => "call"
  | .opcall => "opcall"
  | .attempt => "try"
  | .subscript => "subscript"
  | .group => "group"
  | .ifthen => "ifthen"
  | .define => "let"
  | .lvalue => "lvalue"
  | .rvalue => "rvalue"
  | .help => "help"
  | .exit => "exit"
  | .importName => "import"
  | .assignment => "assignment"
  | .block => "block"
  | .statement => "statement"

/-- Classes of trees that a rule can ask for. -/
inductive Shape where
  | any
  | elementList
  | paramList
  | argList
  deriving DecidableEq, Repr

/-- The name of a class of trees in messages. -/
def Shape.label : Shape → String
  | .any => "Eval"
  | .elementList => "ElementList"
  | .paramList => "ParamList"
  | .argList => "ArgList"

/-- Does a tree belong to the class? -/
def Shape.fits : Shape → Expr → Bool
  | .any, _ => true
  | .elementList, .elementList _ => true
  | .paramList, .paramList _ => true
  | .argList, .argList _ => true
  | _, _ => false

/-- One part of a rule. -/
inductive Part where
  | production (p : Production)
  | token (kind : Token.Kind)
  | tree (shape : Shape)
  deriving DecidableEq, Repr

/-- The name of a part in messages. -/
def Part.label : Part → String
  | .production p => p.label
  | .token kind => kind.label
  | .tree shape => shape.label

/-- What is read: tokens, and the trees built from those read before. -/
inductive Item where
  | token (t : Token)
  | tree (e : Expr)

/-- What a rule builds. -/
inductive Action where
  | text
  | integer
  | decimal
  | negate
  | lookup
  | member
  | elementList
  | array
  | paramList
  | closure
  | arg
  | argList
  | object
  | call
  | opCall
  | attempt
  | subscript
  | group
  | ifThen
  | define
  | help
  | exit
  | importName
  | assign
  | block
  deriving DecidableEq, Repr

/-- A rule: another production, or parts to be matched one after the other. -/
inductive Rule where
  | via (p : Production)
  | parts (action : Action) (parts : List Part)
  deriving DecidableEq, Repr

/-- The rules of a production, in the order in which they are tried. -/
def Production.rules : Production → List Rule
  | .expression =>
    [ .via .variableName, .via .array, .via .dictObject, .via .constant, .via .closure,
      .via .boolean, .via .attempt, .via .ifthen, .via .subscript, .via .call, .via .opcall,
      .via .group, .via .block, .via .objectRef ]
  | .constant =>
    [ .parts .text [.token .text], .parts .integer [.token .integer],
      .parts .decimal [.token .decimal] ]
  | .boolean => [.parts .negate [.token .bang, .production .expression]]
  | .variableName => [.parts .lookup [.token .name]]
  | .operator => [.parts .lookup [.token .operator]]
  | .objectRef => [.parts .member [.tree .any, .token .dot, .token .name]]
  | .elementList =>
    [ .parts .elementList [.tree .elementList, .token .comma, .production .expression],
      .parts .elementList [.production .expression] ]
  | .array =>
    [ .parts .array [.token .leftBracket, .production .elementList, .token .rightBracket],
      .parts .array [.token .leftBracket, .token .rightBracket] ]
  | .paramList =>
    [ .parts .paramList [.tree .paramList, .token .comma, .token .name],
      .parts .paramList [.token .name] ]
  | .closure =>
    [ .parts .closure
        [.token .backslash, .production .paramList, .token .dot, .production .expression],
      .parts .closure [.token .backslash, .token .dot, .production .expression] ]
  | .arg => [.parts .arg [.token .name, .token .colon, .production .expression]]
  | .argList =>
    [ .parts .argList [.tree .argList, .token .comma, .production .arg],
      .parts .argList [.production .arg] ]
  | .dictObject =>
    [ .parts .object [.token .leftBrace, .production .argList, .token .rightBrace],
      .parts .object [.token .leftBrace, .token .rightBrace] ]
  | .call =>
    [ .parts .call
        [.production .expression, .token .leftParen, .production .argList, .token .rightParen],
      .parts .call [.production .expression, .token .leftParen, .token .rightParen] ]
  | .opcall => [.parts .opCall [.tree .any, .production .operator, .production .expression]]
  | .attempt => [.parts .attempt [.token .tryWord, .production .expression]]
  | .subscript =>
    [ .parts .subscript
        [.tree .any, .token .leftBracket, .production .expression, .token .rightBracket] ]
  | .group => [.parts .group [.token .leftParen, .production .expression, .token .rightParen]]
  | .ifthen =>
    [ .parts .ifThen
        [ .token .ifWord, .production .expression, .token .thenWord, .production .expression,
          .token .elseWord, .production .expression ] ]
  | .define => [.parts .define [.token .letWord, .production .variableName]]
  | .lvalue => [.via .define, .via .objectRef, .via .variableName]
  | .rvalue => [.via .expression]
  | .help =>
    [ .parts .help [.token .helpWord, .production .expression],
      .parts .help [.token .helpWord] ]
  | .exit => [.parts .exit [.token .exitWord]]
  | .importName => [.parts .importName [.token .importWord, .token .name]]
  | .assignment => [.parts .assign [.production .lvalue, .token .eq, .production .rvalue]]
  | .block => [.parts .block [.tree .any, .token .semicolon, .production .expression]]
  | .statement =>
    [ .via .help, .via .exit, .via .importName, .via .assignment, .via .define,
      .via .expression ]

/-- Removes the backslash before any character but a line feed. -/
def dropBackslashes : List Char → List Char
  | [] => []
  | ['\\'] => ['\\']
  | '\\' :: c :: rest =>
    if c = '\n' then '\\' :: '\n' :: dropBackslashes rest else c :: dropBackslashes rest
  | c :: rest => c :: dropBackslashes rest

/-- The text that a quoted token stands for: `\n` and `\t` are a line feed and a tab, and after
that a backslash stands for the character that follows it. -/
def unquote (token : String) : String :=
  let inner := String.ofList ((token.toList.drop 1).dropLast)
  let controls := Text.replaceAll "\\t" "\t" (Text.replaceAll "\\n" "\n" inner)
  String.ofList (dropBackslashes controls.toList)

/-- The integer that a run of digits stands for. -/
def readInteger (digits : String) : Except Fault Int :=
  if digits.length ≤ Number.digitLimit then .ok (Number.digitsValue digits.toList)
  else .error (.tooManyDigits digits.length)

/-- The number that digits with a point among them stand for. -/
def readDecimal (digits : String) : Float :=
  Number.ofDigits false (digits.toList.takeWhile (· != '.'))
    ((digits.toList.dropWhile (· != '.')).drop 1)

/-- The tree that a rule builds from the items that matched its parts. The items fit the rule, so
the last case does not occur. -/
def Action.build : Action → List Item → Traced Fault Expr
  | .text, [.token t] => do
    Traced.note ("PARSING STRING: " ++ t.shown)
    pure (.constant (.text (unquote t.text)))
  | .integer, [.token t] => do
    let n ← Traced.ofExcept (readInteger t.text)
    pure (.constant (.int n))
  | .decimal, [.token t] => pure (.constant (.float (readDecimal t.text)))
  | .negate, [_, .tree e] => pure (.negate e)
  | .lookup, [.token t] => pure (.lookup t.text)
  | .member, [.tree e, _, .token t] => pure (.member e t.text)
  | .elementList, [.tree (.elementList es), _, .tree e] => pure (.elementList (es ++ [e]))
  | .elementList, [.tree (.elementList es)] => pure (.elementList es)
  | .elementList, [.tree e] => pure (.elementList [e])
  | .array, [_, .tree (.elementList es), _] => pure (.array es)
  | .array, [_, _] => pure (.array [])
  | .paramList, [.tree (.paramList ps), _, .token t] => pure (.paramList (ps ++ [t.text]))
  | .paramList, [.token t] => pure (.paramList [t.text])
  | .closure, [_, .tree (.paramList ps), _, .tree e] => pure (.closure 0 ps e)
  | .closure, [_, _, .tree e] => pure (.closure 0 [] e)
  | .arg, [.token t, _, .tree e] => pure (.arg t.text e)
  | .argList, [.tree (.argList as), _, .tree (.arg k e)] => pure (.argList (Expr.putArg k e as))
  | .argList, [.tree (.arg k e)] => pure (.argList [(k, e)])
  | .object, [_, .tree (.argList as), _] => pure (.object as)
  | .object, [_, _] => pure (.object [])
  | .call, [.tree f, _, .tree (.argList as), _] => pure (.call f as)
  | .call, [.tree f, _, _] => pure (.call f [])
  | .opCall, [.tree left, .tree op, .tree right] => pure (.opCall op left right)
  | .attempt, [_, .tree e] => pure (.attempt e)
  | .subscript, [.tree e, _, .tree i, _] => pure (.subscript e i)
  | .group, [_, .tree e, _] => pure (.group e)
  | .ifThen, [_, .tree c, _, .tree y, _, .tree n] => pure (.ifThen c y n)
  | .define, [_, .tree (.lookup name)] => pure (.define name)
  | .help, [_, .tree e] => pure (.help e)
  | .help, [_] => pure .helpAll
  | .exit, [_] => pure .exit
  | .importName, [_, .token t] => pure (.importName t.text)
  | .assign, [.tree target, _, .tree value] => pure (.assign target value)
  | .block, [.tree (.block es), _, .tree e] => pure (.block (es ++ [e]))
  | .block, [.tree left, _, .tree right] => pure (.block [left, right])
  | _, _ => Traced.fail .noStatement

end Parley.Grammar
