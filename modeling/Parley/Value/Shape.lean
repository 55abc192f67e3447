import Parley.Expr.Text
import Parley.Value.Basic

/-!
# Values with everything that hangs from them

A `Shape` is a value at one moment, with the contents of its arrays and objects in place of their
addresses. Two values are alike exactly when they have the same shape, and everything that is ever
written of a value depends on its shape alone.
-/

namespace Parley

/-- A value with everything that hangs from it. -/
inductive Shape where
  /-- A value without parts in the store, or one that contains itself. -/
  | leaf (v : Value)
  | array (elements : List Shape)
  | object (properties : List (String × Shape))

namespace Shape

instance : Inhabited Shape := ⟨.leaf .null⟩

/-- A value without parts in a style. An array or an object stands here only where a value contains
itself, and there is no end to writing it. -/
def writeLeaf (style : Style) : Value → Traced Fault String
  | .constant c => c.write style
  | .setting s =>
    match style with
    | .shown => pure (Text.quoted s)
    | .pasted => pure s
    | .json => Traced.fail (.noAttribute "str" "toJson")
  | .closure _ params body => do
    let text ← body.shown
    pure (Expr.closureText params text)
  | .builtin f _ => pure ("builtin[" ++ f.name ++ "]")
  | .method _ _ m => pure ("builtin[" ++ m.name ++ "]")
  | .service _ name => pure ("Service[" ++ name ++ "]")
  | .remote _ service call => pure ("ServiceCall[" ++ service ++ "." ++ call ++ "]")
  | .tree _ e => e.write style
  | .array _ | .object _ => Traced.fail .nestedTooDeeply

mutual

/-- A value in a style. -/
def write (style : Style) : Shape → Traced Fault String
  | leaf v => writeLeaf style v
  | array es => do
    let parts ← writeAll style.ofElements es
    pure (Expr.arrayText parts)
  | object ps =>
    match style with
    | .shown => do
      let parts ← writeProperties .shown Expr.shownProperty ps
      pure (Expr.objectText parts)
    | _ => do
      let parts ← writeProperties .json Expr.jsonProperty ps
      pure (Expr.objectText parts)

/-- Several values in a style. -/
def writeAll (style : Style) : List Shape → Traced Fault (List String)
  | [] => pure []
  | s :: rest => do
    let text ← write style s
    let more ← writeAll style rest
    pure (text :: more)

/-- Named values in a style, each put together with its name. -/
def writeProperties (style : Style) (put : String → String → String) :
    List (String × Shape) → Traced Fault (List String)
  | [] => pure []
  | (k, s) :: rest => do
    let text ← write style s
    let more ← writeProperties style put rest
    pure (put k text :: more)

end

mutual

/-- The datum of a value. What has none is its text; a service is an empty dictionary. -/
def data : Shape → Traced Fault Data
  | leaf (.constant c) => pure c.data
  | leaf (.service _ _) => pure (.dict [])
  | leaf (.setting _) => pure .null
  | leaf v => do
    let text ← writeLeaf .shown v
    pure (.str text)
  | array es => do
    let items ← dataAll es
    pure (.list items)
  | object ps => do
    let entries ← dataProperties ps
    pure (.dict entries)

/-- The data of several values. -/
def dataAll : List Shape → Traced Fault (List Data)
  | [] => pure []
  | s :: rest => do
    let d ← data s
    let more ← dataAll rest
    pure (d :: more)

/-- The data of named values. -/
def dataProperties : List (String × Shape) → Traced Fault (List (String × Data))
  | [] => pure []
  | (k, s) :: rest => do
    let d ← data s
    let more ← dataProperties rest
    pure ((k, d) :: more)

end

/-- The sentence for data that are no values of the language. -/
def foreignMessage (d : Data) : String :=
  let kind := d.kind
  s!"Unsupported native value: {d.text} (<class '{kind}'>)"

mutual

/-- The value of a datum. Bytes and sets have none. -/
def ofData : Data → Except Fault Shape
  | .null => .ok (.leaf .null)
  | .bool b => .ok (.leaf (.constant (.bool b)))
  | .int n => .ok (.leaf (.constant (.int n)))
  | .float x => .ok (.leaf (.constant (.float x)))
  | .str s => .ok (.leaf (.text s))
  | .bytes b => .error (.evaluation (foreignMessage (.bytes b)))
  | .set xs => .error (.evaluation (foreignMessage (.set xs)))
  | .list xs => do
    let es ← ofDataAll xs
    .ok (.array es)
  | .dict es => do
    let ps ← ofDataEntries es
    .ok (.object ps)

/-- The values of several data. -/
def ofDataAll : List Data → Except Fault (List Shape)
  | [] => .ok []
  | d :: rest => do
    let s ← ofData d
    let more ← ofDataAll rest
    .ok (s :: more)

/-- The values of the entries of a dictionary. -/
def ofDataEntries : List (String × Data) → Except Fault (List (String × Shape))
  | [] => .ok []
  | (k, d) :: rest => do
    let s ← ofData d
    let more ← ofDataEntries rest
    .ok ((k, s) :: more)

end

mutual

/-- A value as it is saved in a session: functions of the shell and services by name. -/
def flat : Shape → Traced Fault String
  | leaf (.builtin f _) => pure f.name
  | leaf (.method _ _ m) => pure m.name
  | leaf (.service _ name) => pure name
  | leaf (.setting _) => Traced.fail (.noAttribute "str" "toJson")
  | leaf v => writeLeaf .shown v
  | array es => do
    let parts ← flatAll es
    pure (Expr.arrayText parts)
  | object ps => do
    let parts ← flatProperties ps
    pure ("\x7b " ++ Text.joinWith ", " parts ++ " \x7d")

/-- `flat` for several values. -/
def flatAll : List Shape → Traced Fault (List String)
  | [] => pure []
  | s :: rest => do
    let text ← flat s
    let more ← flatAll rest
    pure (text :: more)

/-- `flat` for named values. -/
def flatProperties : List (String × Shape) → Traced Fault (List String)
  | [] => pure []
  | (k, s) :: rest => do
    let text ← flat s
    let more ← flatProperties rest
    pure ((k ++ ": " ++ text) :: more)

end

/-- Does a value count as true? Of the values with parts only the empty array does not. -/
def truthy : Shape → Bool
  | leaf v => v.truthyLeaf
  | array es => !es.isEmpty
  | object _ => true

end Shape

end Parley
