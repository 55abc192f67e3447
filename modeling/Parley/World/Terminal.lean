import Parley.Fault

/-!
# Colours and titles

The sequences of characters by which a terminal is told to change its colours or its title. An
output that is no terminal gets none of them.
-/

namespace Parley.Terminal

/-- A command about colours. -/
inductive Command where
  | foreground (name : String)
  | background (name : String)
  | reset
  deriving DecidableEq, Repr

/-- The colours of letters, with the numbers by which they are chosen. -/
def foregrounds : List (String × Nat) :=
  [ ("black", 30), ("red", 31), ("green", 32), ("orange", 33), ("blue", 34), ("purple", 35),
    ("cyan", 36), ("lightgrey", 37), ("darkgrey", 90), ("lightred", 91), ("lightgreen", 92),
    ("yellow", 93), ("lightblue", 94), ("pink", 95), ("lightcyan", 96) ]

/-- The colours of the ground. -/
def backgrounds : List (String × Nat) :=
  [ ("black", 40), ("red", 41), ("green", 42), ("orange", 43), ("blue", 44), ("purple", 45),
    ("cyan", 46), ("lightgrey", 47) ]

/-- The sequence that chooses a colour. -/
def colourCode (n : Nat) : String :=
  s!"\x1b[{n}m"

/-- The sequence for a colour of a table. -/
def colour (layer : String) (table : List (String × Nat)) (name : String) :
    Except Fault String :=
  match table.lookup name with
  | some n => .ok (colourCode n)
  | none => .error (.noColour layer name)

/-- Chooses the colour of letters. -/
def setForeground (terminal : Bool) (name : String) : Except Fault String :=
  if terminal then colour "Foreground" foregrounds name else .ok ""

/-- Chooses the colour of the ground. -/
def setBackground (terminal : Bool) (name : String) : Except Fault String :=
  if terminal then colour "Background" backgrounds name else .ok ""

/-- Goes back to the usual colours. -/
def reset (terminal : Bool) : String :=
  if terminal then "\x1b[0m" else ""

/-- Sets the title of the window. -/
def setTitle (terminal : Bool) (title : String) : String :=
  if terminal then "\x1b]0;" ++ title ++ "\x07" else ""

end Parley.Terminal
