import Parley.Data.Access
import Parley.Pattern.Template
import Parley.Traced

/-!
# Templates

A template is text with holes: `$name$` is filled with an argument, and `$$` stands for a dollar
sign. It is cut at `$$`, and in every segment the holes of the last declared parameter are filled.
A parameter without an argument is filled with nothing.

The name of a parameter is read as a regular expression, and the text of an argument as a
replacement for one.
-/

namespace Parley.Service

/-- The texts of the arguments of a call. -/
abbrev ArgTexts := List (String × Traced Fault String)

/-- The text of an argument; nothing if it is not given. -/
def argText (args : ArgTexts) (name : String) : Traced Fault String :=
  match args.find? fun a => a.1 == name with
  | some a => a.2
  | none => pure ""

/-- Fills the holes of each parameter in a segment, one parameter after the other, always from the
segment as it was written: the last one stands. -/
def fillSegment (args : ArgTexts) (segment : String) : String → List String → Traced Fault String
  | done, [] => pure done
  | _, param :: rest => do
    let text ← argText args param
    let filled ← Traced.ofExcept (Pattern.replace ("\\$" ++ param ++ "\\$") text segment)
    fillSegment args segment filled rest

/-- Fills every segment. -/
def fillSegments (args : ArgTexts) (params : Data) : List String → Traced Fault (List String)
  | [] => pure []
  | segment :: rest => do
    let names ← Traced.ofExcept (params.entries "keys")
    let filled ← fillSegment args segment segment (names.map Prod.fst)
    let more ← fillSegments args params rest
    pure (filled :: more)

/-- Fills a template. -/
def fillTemplate (template params : Data) (args : ArgTexts) : Traced Fault String := do
  let text ← Traced.ofExcept (template.asText "split")
  let filled ← fillSegments args params (Text.cutText "$$" text)
  pure (Text.joinWith "$" filled)

end Parley.Service
