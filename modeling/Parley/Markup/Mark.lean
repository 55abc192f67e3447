import Parley.Fault

/-!
# Places in a document

A place is a position with its line and column. Problems with a document are told with the places
they concern, each followed by the line it is on and an arrow.

This is a part of what stands in for the reader of documents (`Parley.Markup.Reading`).
-/

namespace Parley.Markup

/-- A place in a document, counted from zero. -/
structure Mark where
  index : Nat
  line : Nat
  column : Nat
  deriving DecidableEq, Repr

/-- The characters of a document. -/
abbrev Source := Array Char

/-- The character at a position; NUL stands for the end. -/
def charAt (source : Source) (index : Nat) : Char :=
  source[index]?.getD '\x00'

/-- Does the character end a line? -/
def isBreak (c : Char) : Bool :=
  c == '\r' || c == '\n' || c == '\x85' || c == '\u2028' || c == '\u2029'

/-- Does the character end a line, or is it the end? -/
def isBreakOrEnd (c : Char) : Bool :=
  c == '\x00' || isBreak c

/-- Is the character a blank, a tab or the end of a line? -/
def isGap (c : Char) : Bool :=
  c == ' ' || c == '\t' || isBreakOrEnd c

/-- The start of the shown part of a line, going back from a place, and whether it was cut. -/
def snippetStart (source : Source) (pointer : Nat) : Nat → Nat → Nat × Bool
  | 0, start => (start, false)
  | fuel + 1, start =>
    if start > 0 && !isBreakOrEnd (charAt source (start - 1)) then
      let start := start - 1
      if pointer - start > 36 then (start + 5, true)
      else snippetStart source pointer fuel start
    else (start, false)

/-- The end of the shown part of a line, going on from a place, and whether it was cut. -/
def snippetEnd (source : Source) (pointer : Nat) : Nat → Nat → Nat × Bool
  | 0, stop => (stop, false)
  | fuel + 1, stop =>
    if stop < source.size && !isBreakOrEnd (charAt source stop) then
      let stop := stop + 1
      if stop - pointer > 36 then (stop - 5, true)
      else snippetEnd source pointer fuel stop
    else (stop, false)

/-- Blanks. -/
def blanks (n : Nat) : String :=
  String.ofList (List.replicate n ' ')

/-- The line of a place with an arrow below. -/
def snippet (source : Source) (m : Mark) : String :=
  let (start, cutStart) := snippetStart source m.index 80 m.index
  let (stop, cutEnd) := snippetEnd source m.index 80 m.index
  let head := if cutStart then " ... " else ""
  let tail := if cutEnd then " ... " else ""
  let line := String.ofList ((source.extract start stop).toList)
  blanks 4 ++ head ++ line ++ tail ++ "\n" ++ blanks (4 + (m.index - start) + head.length) ++ "^"

/-- The words for a place. -/
def Mark.text (source : Source) (m : Mark) : String :=
  s!"  in \"<unicode string>\", line {m.line + 1}, column {m.column + 1}:\n" ++ snippet source m

/-- What is wrong with a document. -/
structure Problem where
  label : String
  message : String

/-- The fault of a document with a problem. -/
def Problem.fault (p : Problem) : Fault :=
  .markup p.label p.message

/-- A problem in words: what was being done and where that began, then what is wrong and where. -/
def problem (source : Source) (label : String) (context : Option (String × Option Mark))
    (what : String) (place : Mark) : Problem :=
  let before :=
    match context with
    | none => []
    | some (words, none) => [words]
    | some (words, some m) =>
      if m.line == place.line && m.column == place.column then [words]
      else [words, m.text source]
  ⟨label, String.intercalate "\n" (before ++ [what, place.text source])⟩

end Parley.Markup
