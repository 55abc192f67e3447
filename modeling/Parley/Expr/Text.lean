import Parley.Expr.Basic

/-!
# The text of expressions

A tree is written in three styles: `Style.shown` is the form that the shell shows, `Style.pasted`
the form that is put inside other text, and `Style.json` the form of the parts of an object that is
pasted. The styles differ in texts, which have quotes or not, and in objects. Kinds of trees that
have no written form of their own are shown as a place in memory.
-/

namespace Parley

/-- The styles in which trees and values are written. -/
inductive Style where
  | shown
  | pasted
  | json
  deriving DecidableEq, Repr

/-- The style of the elements of an array in each style. -/
def Style.ofElements : Style → Style
  | .json => .json
  | _ => .shown

/-- A constant in a style. -/
def Constant.write : Style → Constant → Traced Fault String
  | .shown, c => Traced.ofExcept c.shown
  | .pasted, c => Traced.ofExcept c.pasted
  | .json, c => c.json

namespace Expr

/-- The text of a tree without a written form. -/
def placeText (label : String) : String :=
  s!"<restsh.evaluate.{label} object at 0xADDR>"

/-- An array, from its elements. -/
def arrayText (parts : List String) : String :=
  "[ " ++ Text.joinWith ", " parts ++ " ]"

/-- An object, from its properties. -/
def objectText (parts : List String) : String :=
  "\x7b " ++ Text.joinWith ", " parts ++ "\x7d"

/-- A function, from its parameters and its body. -/
def closureText (params : List String) (body : String) : String :=
  "\\ " ++ Text.joinWith ", " params ++ " . " ++ body

/-- A property of an object that is shown. -/
def shownProperty (name text : String) : String :=
  name ++ ": " ++ text ++ "\n"

/-- A property of an object that is pasted. -/
def jsonProperty (name text : String) : String :=
  "\"" ++ name ++ "\": " ++ text ++ "\n"

/-- A named argument. -/
def argText (name text : String) : String :=
  name ++ ": " ++ text

mutual

/-- A tree in a style. -/
def write (style : Style) : Expr → Traced Fault String
  | lookup name => pure name
  | constant c => c.write style
  | array es => do
    let parts ← writeAll style.ofElements es
    pure (arrayText parts)
  | object ps =>
    match style with
    | .shown => do
      let parts ← writeArgs .shown shownProperty ps
      pure (objectText parts)
    | _ => do
      let parts ← writeArgs .json jsonProperty ps
      pure (objectText parts)
  | closure _ params body => do
    let text ← write .shown body
    pure (closureText params text)
  | block es => do
    let parts ← writeAll .shown es
    pure (Text.joinWith "; " parts)
  | member whole name => do
    let text ← write .pasted whole
    pure (text ++ "." ++ name)
  | define name => pure ("let " ++ name)
  | exit => pure "exit"
  | ifThen _ _ _ => pure (placeText "IfThen")
  | assign target value => do
    let left ← write .pasted target
    let right ← write .pasted value
    pure (left ++ " = " ++ right)
  | importName name => pure ("import " ++ name)
  | helpAll => pure "help None"
  | help what => do
    let text ← write .pasted what
    pure ("help " ++ text)
  | attempt body => do
    let text ← write .pasted body
    pure ("try " ++ text)
  | call f args => do
    let function ← write .shown f
    let parts ← writeArgs .shown argText args
    pure (function ++ "(" ++ Text.joinWith ", " parts ++ ")")
  | opCall op left right => do
    let l ← write .shown left
    let o ← write .shown op
    let r ← write .shown right
    pure (l ++ " " ++ o ++ " " ++ r)
  | subscript _ _ => pure (placeText "Subscript")
  | group inner => do
    let text ← write .shown inner
    pure ("(" ++ text ++ ")")
  | negate _ => pure (placeText "Not")
  | elementList es => do
    let parts ← writeAll .shown es
    pure ("EL[" ++ Text.joinWith ", " parts ++ "]")
  | paramList params => pure (Text.joinWith ", " params)
  | arg name value => do
    let text ← write .shown value
    pure ("ARG\x7b\x7b" ++ Text.quoted name ++ ": " ++ text ++ "\x7d\x7d")
  | argList args => do
    let parts ← writeArgs .shown argText args
    pure (Text.joinWith ", " parts)
  | bare kind => pure (placeText (bare kind).label)

/-- A list of trees in a style. -/
def writeAll (style : Style) : List Expr → Traced Fault (List String)
  | [] => pure []
  | e :: es => do
    let text ← write style e
    let rest ← writeAll style es
    pure (text :: rest)

/-- Named trees in a style, each put together with its name. -/
def writeArgs (style : Style) (put : String → String → String) :
    List (String × Expr) → Traced Fault (List String)
  | [] => pure []
  | (k, e) :: es => do
    let text ← write style e
    let rest ← writeArgs style put es
    pure (put k text :: rest)

end

/-- A tree as the shell shows it. -/
def shown (e : Expr) : Traced Fault String :=
  write .shown e

end Expr

end Parley
