import Parley.Text.Blank
import Parley.Text.Case
import Parley.Text.Digit
import Parley.Text.Word

/-!
# The words of a date

A date in free form is cut into words before its parts are recognized: runs of letters, numbers,
one blank for each blank character, and every other character alone. A number may have one point;
a comma stands for the point if no point is there.

This is a part of what stands in for the library of dates (`Parley.Time.Instant`).
-/

namespace Parley.Time

/-- Is this a letter? -/
def isLetter (c : Char) : Bool :=
  c.isAlpha || (c.toNat > 127 && Text.isWord c && !Text.isDecimal c)

/-- What kind of word is being read; a dotted word may turn out to be several. -/
inductive WordState where
  | letters
  | digits
  | dottedLetters
  | dottedDigits
  deriving DecidableEq, Repr

/-- The state that a character leads to within a word; `none` if the word ends before it. The word
is given backwards. -/
def WordState.next? (word : List Char) (c : Char) : WordState → Option WordState
  | .letters =>
    if isLetter c then some .letters
    else if c == '.' then some .dottedLetters
    else none
  | .digits =>
    if Text.isDecimal c then some .digits
    else if c == '.' || (c == ',' && word.length ≥ 2) then some .dottedDigits
    else none
  | .dottedLetters =>
    if c == '.' || isLetter c then some .dottedLetters
    else if Text.isDecimal c && word.head? == some '.' then some .dottedDigits
    else none
  | .dottedDigits =>
    if c == '.' || Text.isDecimal c then some .dottedDigits
    else if isLetter c && word.head? == some '.' then some .dottedLetters
    else none

/-- Reads on in a word: the word backwards, its last state, whether a state with letters was left
behind, and the rest. -/
def readWord : List Char → WordState → Bool → List Char → List Char × WordState × Bool × List Char
  | word, state, letters, [] => (word, state, letters, [])
  | word, state, letters, c :: rest =>
    let letters := letters || state == .letters || state == .dottedLetters
    match state.next? word c with
    | some next => readWord (c :: word) next letters rest
    | none => (word, state, letters, c :: rest)

/-- Cuts a text at points and commas, which are kept; nothing empty is left. -/
def cutAtPoints : List Char → List Char → List (List Char)
  | [], [] => []
  | word, [] => [word.reverse]
  | word, c :: rest =>
    if c == '.' || c == ',' then
      if word.isEmpty then [c] :: cutAtPoints [] rest
      else word.reverse :: [c] :: cutAtPoints [] rest
    else cutAtPoints (c :: word) rest

/-- The words that a dotted run of characters comes to. -/
def splitDotted (state : WordState) (letters : Bool) (word : List Char) : List (List Char) :=
  let dotted := state == .dottedLetters || state == .dottedDigits
  let endsOpen := word.getLast? == some '.' || word.getLast? == some ','
  if dotted && (letters || word.count '.' > 1 || endsOpen) then cutAtPoints [] word
  else if state == .dottedDigits && !word.contains '.' then
    [word.map fun c => if c == ',' then '.' else c]
  else [word]

/-- The words of a text; every round takes at least one character. -/
def wordsFrom : Nat → List Char → List (List Char)
  | 0, _ => []
  | _ + 1, [] => []
  | budget + 1, c :: rest =>
    let run (state : WordState) :=
      let (word, state, letters, rest) := readWord [c] state false rest
      splitDotted state letters word.reverse ++ wordsFrom budget rest
    if c == '\x00' then wordsFrom budget rest
    else if isLetter c then run .letters
    else if Text.isDecimal c then run .digits
    else if Text.isBlank c then [' '] :: wordsFrom budget rest
    else [c] :: wordsFrom budget rest

/-- The words of a text. -/
def words (text : String) : List String :=
  let cs := text.toList
  (wordsFrom cs.length cs).map String.ofList

/-! ### What words name -/

/-- A word in small letters. -/
def small (word : String) : String :=
  word.map Text.toSmall

/-- The position of the first group that has a word. -/
def groupOf? (groups : List (List String)) (word : String) : Option Nat :=
  groups.findIdx? fun group => group.contains (small word)

/-- The days of the week. -/
def weekdays : List (List String) :=
  [ ["mon", "monday"], ["tue", "tuesday"], ["wed", "wednesday"], ["thu", "thursday"],
    ["fri", "friday"], ["sat", "saturday"], ["sun", "sunday"] ]

/-- The months. -/
def months : List (List String) :=
  [ ["jan", "january"], ["feb", "february"], ["mar", "march"], ["apr", "april"], ["may"],
    ["jun", "june"], ["jul", "july"], ["aug", "august"], ["sep", "sept", "september"],
    ["oct", "october"], ["nov", "november"], ["dec", "december"] ]

/-- The day of the week that a word names; Monday is 0. -/
def weekdayOf? (word : String) : Option Nat :=
  groupOf? weekdays word

/-- The month that a word names; January is 1. -/
def monthOf? (word : String) : Option Nat :=
  (groupOf? months word).map (· + 1)

/-- The unit that a word names: 0 for hours, 1 for minutes, 2 for seconds. -/
def unitOf? (word : String) : Option Nat :=
  groupOf? [["h", "hour", "hours"], ["m", "minute", "minutes"], ["s", "second", "seconds"]] word

/-- The half of the day that a word names: 0 before noon, 1 after. -/
def halfOf? (word : String) : Option Nat :=
  groupOf? [["am", "a"], ["pm", "p"]] word

/-- Does a word say nothing about the date? -/
def isFiller (word : String) : Bool :=
  [" ", ".", ",", ";", "-", "/", "'", "at", "on", "and", "ad", "m", "t", "of", "st", "nd", "rd",
    "th"].contains (small word)

/-- Does a word name universal time? -/
def isUniversal (word : String) : Bool :=
  ["utc", "gmt", "z"].contains (small word)

/-- May a word be the name of a zone? -/
def isZoneName (word : String) : Bool :=
  word.length ≤ 5 && (word.toList.all Char.isUpper || ["UTC", "GMT", "Z", "z"].contains word)

end Parley.Time
