import Parley.Text.Pieces

/-!
# Wrapping

Help is wrapped at the width of the console, word by word. A word is what stands between two blanks
of a line; it is written with a blank after it, and a tab in it as two blanks. A line is broken
before a word that would not fit any more, so that only a single word can be too long for a line.
-/

namespace Parley.Help

/-- Tabs as two blanks each. -/
def expandTabs : List Char → List Char
  | [] => []
  | c :: rest => if c = '\t' then ' ' :: ' ' :: expandTabs rest else c :: expandTabs rest

/-- A word as it is written. -/
def writtenWord (word : List Char) : List Char :=
  expandTabs (word ++ [' '])

/-- The lines for a list of words, after what stands on the line already. -/
def wrapWords (width : Nat) : List Char → List (List Char) → List (List Char)
  | line, [] => [line]
  | line, word :: rest =>
    let written := writtenWord word
    if line.length + written.length > width then
      line :: wrapWords width written rest
    else wrapWords width (line ++ written) rest

/-- The lines for one line of a text. -/
def wrapLine (width : Nat) (line : List Char) : List (List Char) :=
  wrapWords width [] (Text.cutAt ' ' line)

/-- The lines for a text. -/
def wrap (width : Nat) (text : String) : List String :=
  ((Text.cutAt '\n' text.toList).flatMap (wrapLine width)).map String.ofList

end Parley.Help
