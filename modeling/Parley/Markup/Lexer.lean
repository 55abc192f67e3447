import Parley.Data.Json
import Parley.Markup.Token

/-!
# Cutting a document into tokens

The reader goes through the document once. It keeps the indentation of the blocks it is in, the
depth of brackets, and for every depth the last place where a key may have begun: a key is only
known as such when the colon after it is reached, and then its token is put in where it began.

A key of this simple kind must end on its line and within 1024 characters. Where a block mapping
requires one, the missing colon is an error.

This is a part of what stands in for the reader of documents (`Parley.Markup.Reading`).
-/

namespace Parley.Markup

/-- A place where a key may have begun. -/
structure KeyPlace where
  /-- The position of its token. -/
  number : Nat
  required : Bool
  mark : Mark

/-- The state of the reader. -/
structure Lexing where
  source : Source
  place : Mark
  tokens : Array Lexeme
  done : Bool
  /-- The number of open brackets. -/
  depth : Nat
  /-- The indentation of the innermost block; none outside of all blocks. -/
  indent : Option Nat
  outer : List (Option Nat)
  keyAllowed : Bool
  keys : List (Nat × KeyPlace)

/-- The monad of the reader. -/
abbrev Lex := StateT Lexing (Except Problem)

/-! ### Characters -/

/-- The character `k` places ahead. -/
def peek (k : Nat) : Lex Char := do
  let s ← get
  return charAt s.source (s.place.index + k)

/-- The next `k` characters. -/
def ahead (k : Nat) : Lex (List Char) := do
  let s ← get
  return (s.source.extract s.place.index (s.place.index + k)).toList

/-- The place after one more character. -/
def Mark.next (source : Source) (m : Mark) : Mark :=
  let c := charAt source m.index
  let following := charAt source (m.index + 1)
  if c == '\n' || c == '\x85' || c == '\u2028' || c == '\u2029' || (c == '\r' && following != '\n')
  then ⟨m.index + 1, m.line + 1, 0⟩
  else if c == '\ufeff' then ⟨m.index + 1, m.line, m.column⟩
  else ⟨m.index + 1, m.line, m.column + 1⟩

/-- Goes on by `k` characters. -/
def forward : Nat → Lex Unit
  | 0 => return
  | k + 1 => do
    modify fun s => { s with place := s.place.next s.source }
    forward k

/-- The place of the reader. -/
def here : Lex Mark := do
  return (← get).place

/-- Fails. -/
def lexError {α : Type} (context : Option (String × Option Mark)) (what : String)
    (place : Mark) : Lex α := do
  throw (problem (← get).source "ScannerError" context what place)

/-- The number of characters from `k` places ahead on for which a test holds. -/
def countWhile (p : Char → Bool) : Nat → Nat → Lex Nat
  | 0, k => return k
  | fuel + 1, k => do
    if p (← peek k) then countWhile p fuel (k + 1) else return k

/-- A bound for the number of characters that are left. -/
def room : Lex Nat := do
  return (← get).source.size + 1

/-- Takes the characters for which a test holds. -/
def takeWhile (p : Char → Bool) : Lex (List Char) := do
  let n ← countWhile p (← room) 0
  let cs ← ahead n
  forward n
  return cs

/-- Takes the end of a line, if it stands here: as a line feed, unless it is one of the separators
of lines and paragraphs. -/
def takeBreak : Lex (List Char) := do
  let c ← peek 0
  if c == '\r' && (← peek 1) == '\n' then
    forward 2
    return ['\n']
  else if c == '\r' || c == '\n' || c == '\x85' then
    forward 1
    return ['\n']
  else if c == '\u2028' || c == '\u2029' then
    forward 1
    return [c]
  else return []

/-- Does a separator of documents stand here? -/
def atSeparator : Lex Bool := do
  let cs ← ahead 3
  return (cs == ['-', '-', '-'] || cs == ['.', '.', '.']) && isGap (← peek 3)

/-! ### Tokens, indentation and keys -/

/-- Adds a token. -/
def push (piece : Piece) (start : Mark) : Lex Unit :=
  modify fun s => { s with tokens := s.tokens.push ⟨piece, start⟩ }

/-- Puts a token in before others. -/
def pushAt (number : Nat) (piece : Piece) (start : Mark) : Lex Unit :=
  modify fun s =>
    { s with tokens := (s.tokens.toList.take number ++ ⟨piece, start⟩ ::
        s.tokens.toList.drop number).toArray }

/-- Ends the blocks that are indented more than a column; none ends them all. -/
def unwind (column : Option Nat) : Nat → Lex Unit
  | 0 => return
  | fuel + 1 => do
    let s ← get
    if s.depth != 0 then return
    let deeper : Bool :=
      match s.indent, column with
      | some i, some c => decide (i > c)
      | some _, none => true
      | none, _ => false
    if deeper then
      push .blockEnd s.place
      modify fun s => { s with indent := s.outer.head?.getD none, outer := s.outer.drop 1 }
      unwind column fuel

/-- Ends blocks, as many as there are. -/
def unwindAll (column : Option Nat) : Lex Unit := do
  unwind column ((← get).outer.length + 1)

/-- Begins a block if the column is further in than the block around it. -/
def addIndent (column : Nat) : Lex Bool := do
  let s ← get
  let deeper : Bool :=
    match s.indent with
    | some i => decide (i < column)
    | none => true
  if deeper then
    set { s with indent := some column, outer := s.indent :: s.outer }
    return true
  else return false

/-- The complaint about a key without its colon. -/
def missingColon {α : Type} (key : KeyPlace) : Lex α := do
  lexError (some ("while scanning a simple key", some key.mark)) "could not find expected ':'"
    (← here)

/-- Forgets the places of keys that can be keys no more. -/
def dropStale : List (Nat × KeyPlace) → Lex (List (Nat × KeyPlace))
  | [] => return []
  | (depth, key) :: rest => do
    let p ← here
    if key.mark.line != p.line || p.index - key.mark.index > 1024 then
      if key.required then missingColon key
      dropStale rest
    else return (depth, key) :: (← dropStale rest)

/-- Forgets the place of a key at this depth. -/
def dropKey : Lex Unit := do
  let s ← get
  match s.keys.find? fun k => k.1 == s.depth with
  | some (_, key) =>
    if key.required then missingColon key
    modify fun s => { s with keys := s.keys.filter fun k => k.1 != s.depth }
  | none => return

/-- Remembers that a key may begin here. -/
def saveKey : Lex Unit := do
  let s ← get
  let required := s.depth == 0 && s.indent == some s.place.column
  if s.keyAllowed then
    dropKey
    modify fun s =>
      { s with keys := s.keys ++ [(s.depth, ⟨s.tokens.size, required, s.place⟩)] }

/-- Says whether a key may come next. -/
def allowKey (allowed : Bool) : Lex Unit :=
  modify fun s => { s with keyAllowed := allowed }

/-! ### Gaps and comments -/

/-- Goes on to the next token. -/
def skipGaps : Nat → Lex Unit
  | 0 => return
  | fuel + 1 => do
    let _ ← takeWhile (· == ' ')
    if (← peek 0) == '#' then
      let _ ← takeWhile fun c => !isBreakOrEnd c
    let br ← takeBreak
    if br.isEmpty then return
    else
      if (← get).depth == 0 then allowKey true
      skipGaps fuel

/-! ### Scalars -/

/-- The texts of a scalar are joined from parts. -/
abbrev Parts := List (List Char)

/-- Reads the empty lines between the lines of a quoted text. -/
def quotedBreaks (start : Mark) : Nat → Lex Parts
  | 0 => return []
  | fuel + 1 => do
    if ← atSeparator then
      lexError (some ("while scanning a quoted scalar", some start))
        "found unexpected document separator" (← here)
    let _ ← takeWhile fun c => c == ' ' || c == '\t'
    if isBreak (← peek 0) then
      let br ← takeBreak
      return br :: (← quotedBreaks start fuel)
    else return []

/-- Escapes that stand for one character. -/
def escapes : List (Char × Char) :=
  [ ('0', '\x00'), ('a', '\x07'), ('b', '\x08'), ('t', '\t'), ('\t', '\t'), ('n', '\n'),
    ('v', '\x0b'), ('f', '\x0c'), ('r', '\r'), ('e', '\x1b'), (' ', ' '), ('"', '"'),
    ('\\', '\\'), ('/', '/'), ('N', '\x85'), ('_', '\xa0'), ('L', '\u2028'), ('P', '\u2029') ]

/-- Escapes with a number, and how many digits it has. -/
def numberEscapes : List (Char × Nat) :=
  [('x', 2), ('u', 4), ('U', 8)]

/-- Is the character a hexadecimal digit? -/
def isHexDigit (c : Char) : Bool :=
  (Json.hexValue? c).isSome

/-- Reads an escape; the backslash has been taken. -/
def readEscape (start : Mark) : Lex Parts := do
  let context := some ("while scanning a double-quoted scalar", some start)
  let c ← peek 0
  match escapes.lookup c with
  | some e =>
    forward 1
    return [[e]]
  | none =>
    match numberEscapes.lookup c with
    | some n =>
      forward 1
      let digits ← countWhile isHexDigit n 0
      if digits < n then
        lexError context
          (s!"expected escape sequence of {n} hexadecimal numbers, but found " ++
            Text.quoted (← peek digits).toString) (← here)
      let cs ← ahead n
      forward n
      return [[Char.ofNat (cs.foldl (fun a c => a * 16 + (Json.hexValue? c).getD 0) 0)]]
    | none =>
      if isBreak c then
        let _ ← takeBreak
        quotedBreaks start (← room)
      else
        lexError context ("found unknown escape character " ++ Text.quoted c.toString) (← here)

/-- Reads the part of a quoted text up to the next gap or the closing quote. -/
def quotedWord (double : Bool) (start : Mark) : Nat → Lex Parts
  | 0 => return []
  | fuel + 1 => do
    let cs ← takeWhile fun c => !(c == '\'' || c == '"' || c == '\\' || isGap c)
    let c ← peek 0
    if !double && c == '\'' && (← peek 1) == '\'' then
      forward 2
      return cs :: ['\''] :: (← quotedWord double start fuel)
    else if (double && c == '\'') || (!double && (c == '"' || c == '\\')) then
      forward 1
      return cs :: [c] :: (← quotedWord double start fuel)
    else if double && c == '\\' then
      forward 1
      let e ← readEscape start
      return cs :: e ++ (← quotedWord double start fuel)
    else return [cs]

/-- Reads a gap in a quoted text. A single end of line is a blank. -/
def quotedGap (start : Mark) : Lex Parts := do
  let spaces ← takeWhile fun c => c == ' ' || c == '\t'
  let c ← peek 0
  if c == '\x00' then
    lexError (some ("while scanning a quoted scalar", some start)) "found unexpected end of stream"
      (← here)
  else if isBreak c then
    let br ← takeBreak
    let more ← quotedBreaks start (← room)
    if br != ['\n'] then return br :: more
    else if more.isEmpty then return [[' ']]
    else return more
  else return [spaces]

/-- Reads the rest of a quoted text. -/
def quotedRest (double : Bool) (start : Mark) : Nat → Lex Parts
  | 0 => return []
  | fuel + 1 => do
    let c ← peek 0
    if c == (if double then '"' else '\'') then
      forward 1
      return []
    else
      let gap ← quotedGap start
      let word ← quotedWord double start (← room)
      return gap ++ word ++ (← quotedRest double start fuel)

/-- Reads a quoted text. -/
def quotedScalar (double : Bool) : Lex String := do
  let start ← here
  forward 1
  let first ← quotedWord double start (← room)
  let rest ← quotedRest double start (← room)
  return String.ofList (first ++ rest).flatten

/-- Reads the empty lines inside a plain text; `none` if a document ends there. -/
def plainBreaks : Nat → Lex (Option Parts)
  | 0 => return some []
  | fuel + 1 => do
    let c ← peek 0
    if c == ' ' then
      forward 1
      plainBreaks fuel
    else if isBreak c then
      let br ← takeBreak
      if ← atSeparator then return none
      return (← plainBreaks fuel).map (br :: ·)
    else return some []

/-- Reads a gap in a plain text. -/
def plainGap : Lex Parts := do
  let spaces ← takeWhile (· == ' ')
  if isBreak (← peek 0) then
    let br ← takeBreak
    allowKey true
    if ← atSeparator then return []
    match ← plainBreaks (← room) with
    | none => return []
    | some more =>
      if br != ['\n'] then return br :: more
      else if more.isEmpty then return [[' ']]
      else return more
  else return if spaces.isEmpty then [] else [spaces]

/-- Is the character a bracket or comma of a flow collection? -/
def isFlowMark (c : Char) : Bool :=
  c == ',' || c == '[' || c == ']' || c == '\x7b' || c == '\x7d'

/-- The number of characters until a plain text is interrupted. -/
def plainLength (flow : Bool) : Nat → Nat → Lex Nat
  | 0, k => return k
  | fuel + 1, k => do
    let c ← peek k
    let next ← peek (k + 1)
    if isGap c || (c == ':' && (isGap next || (flow && isFlowMark next))) ||
        (flow && (isFlowMark c || c == '?'))
    then return k
    else plainLength flow fuel (k + 1)

/-- Reads a plain text; `spaces` is the gap before what comes next. -/
def plainParts (indent : Nat) : Nat → Parts → Lex Parts
  | 0, _ => return []
  | fuel + 1, spaces => do
    if (← peek 0) == '#' then return []
    let flow := (← get).depth != 0
    let n ← plainLength flow (← room) 0
    if n == 0 then return []
    allowKey false
    let cs ← ahead n
    forward n
    let gap ← plainGap
    let stop :=
      gap.isEmpty || (← peek 0) == '#' || (!flow && (← here).column < indent)
    if stop then return spaces ++ [cs]
    else return spaces ++ [cs] ++ (← plainParts indent fuel gap)

/-- The least indentation of what belongs to the block at hand. -/
def innerIndent : Lex Nat := do
  return match (← get).indent with
    | some i => i + 1
    | none => 0

/-- Reads a plain text. -/
def plainScalar : Lex String := do
  let parts ← plainParts (← innerIndent) (← room) []
  return String.ofList parts.flatten

/-- What is done with the line feeds at the end of a block of text. -/
inductive Chomp where
  | keep
  | strip
  | clip
  deriving DecidableEq, Repr

/-- Reads the sign for the line feeds at the end. -/
def chompSign : Lex (Option Chomp) := do
  let c ← peek 0
  if c == '+' then
    forward 1
    return some .keep
  else if c == '-' then
    forward 1
    return some .strip
  else return none

/-- Reads the digit for the indentation. -/
def indentDigit (start : Mark) : Lex (Option Nat) := do
  let c ← peek 0
  if c.isDigit then
    if c == '0' then
      lexError (some ("while scanning a block scalar", some start))
        "expected indentation indicator in the range 1-9, but found 0" (← here)
    forward 1
    return some (c.toNat - '0'.toNat)
  else return none

/-- Reads what stands after the sign of a block of text, up to the end of the line. -/
def blockHeader (start : Mark) : Lex (Chomp × Option Nat) := do
  let context := some ("while scanning a block scalar", some start)
  let sign ← chompSign
  let digit ← indentDigit start
  let sign ←
    match sign, digit with
    | none, some _ => chompSign
    | s, _ => pure s
  let c ← peek 0
  if !(c == ' ' || isBreakOrEnd c) then
    lexError context
      ("expected chomping or indentation indicators, but found " ++ Text.quoted c.toString)
      (← here)
  let _ ← takeWhile (· == ' ')
  if (← peek 0) == '#' then
    let _ ← takeWhile fun c => !isBreakOrEnd c
  let c ← peek 0
  if !isBreakOrEnd c then
    lexError context ("expected a comment or a line break, but found " ++ Text.quoted c.toString)
      (← here)
  let _ ← takeBreak
  return (sign.getD .clip, digit)

/-- Reads empty lines at the beginning of a block of text, with the furthest indentation. -/
def blockLead : Nat → Nat → Lex (Parts × Nat)
  | 0, deepest => return ([], deepest)
  | fuel + 1, deepest => do
    let c ← peek 0
    if c == ' ' then
      forward 1
      blockLead fuel (max deepest (← here).column)
    else if isBreak c then
      let br ← takeBreak
      let (more, deepest) ← blockLead fuel deepest
      return (br :: more, deepest)
    else return ([], deepest)

/-- Skips blanks up to a column. -/
def skipIndent (indent : Nat) : Nat → Lex Unit
  | 0 => return
  | fuel + 1 => do
    if (← here).column < indent && (← peek 0) == ' ' then
      forward 1
      skipIndent indent fuel

/-- Reads empty lines in a block of text. -/
def blockBreaks (indent : Nat) : Nat → Lex Parts
  | 0 => return []
  | fuel + 1 => do
    skipIndent indent (← room)
    if isBreak (← peek 0) then
      let br ← takeBreak
      return br :: (← blockBreaks indent fuel)
    else return []

/-- Reads the lines of a block of text; `breaks` are the empty lines before the next one. Gives the
parts, the end of the last line and the empty lines after it. -/
def blockLines (folded : Bool) (indent : Nat) :
    Nat → Parts → List Char → Lex (Parts × List Char × Parts)
  | 0, breaks, br => return ([], br, breaks)
  | fuel + 1, breaks, br => do
    let c ← peek 0
    if (← here).column != indent || c == '\x00' then return ([], br, breaks)
    let flush := !(c == ' ' || c == '\t')
    let cs ← takeWhile fun c => !isBreakOrEnd c
    let br ← takeBreak
    let after ← blockBreaks indent (← room)
    let next ← peek 0
    if (← here).column == indent && next != '\x00' then
      let joint :=
        if folded && br == ['\n'] && flush && !(next == ' ' || next == '\t') then
          if after.isEmpty then [[' ']] else []
        else [br]
      let (more, last, rest) ← blockLines folded indent fuel after br
      return (breaks ++ [cs] ++ joint ++ more, last, rest)
    else return (breaks ++ [cs], br, after)

/-- Reads a block of text. -/
def blockScalar (folded : Bool) : Lex String := do
  let start ← here
  forward 1
  let (chomp, digit) ← blockHeader start
  let least := max 1 (← innerIndent)
  let (breaks, indent) ←
    match digit with
    | none => do
      let (breaks, deepest) ← blockLead (← room) 0
      pure (breaks, max least deepest)
    | some d => do
      let indent := least + d - 1
      pure (← blockBreaks indent (← room), indent)
  let (parts, last, rest) ← blockLines folded indent (← room) breaks []
  let ending :=
    match chomp with
    | .strip => []
    | .clip => [last]
    | .keep => last :: rest
  return String.ofList (parts ++ ending).flatten

/-! ### Tokens -/

/-- May the character stand in the name of an anchor? -/
def isAnchorChar (c : Char) : Bool :=
  c.isAlphanum || c == '-' || c == '_'

/-- Reads the name of an anchor or alias. -/
def anchorName (word : String) : Lex String := do
  let start ← here
  let context := some ("while scanning an " ++ word, some start)
  forward 1
  let name ← takeWhile isAnchorChar
  let c ← peek 0
  let wrong := "expected alphabetic or numeric character, but found " ++ Text.quoted c.toString
  if name.isEmpty then lexError context wrong (← here)
  if !(isGap c || "?:,]\x7d%@`".toList.contains c) then lexError context wrong (← here)
  return String.ofList name

/-- May the character stand in a tag? -/
def isTagChar (c : Char) : Bool :=
  c.isAlphanum || "-;/?:@&=+$,_.!~*'()[]%".toList.contains c

/-- Reads a tag. -/
def readTag : Lex Piece := do
  let start ← here
  let context := some ("while scanning a tag", some start)
  let next ← peek 1
  if next == '<' then
    forward 2
    let uri ← takeWhile isTagChar
    if (← peek 0) != '>' then
      lexError context ("expected '>', but found " ++ Text.quoted (← peek 0).toString) (← here)
    forward 1
    return .tag "" (String.ofList uri)
  else if isGap next then
    forward 1
    return .tag "" "!"
  else
    forward 1
    let cs ← takeWhile isTagChar
    let c ← peek 0
    if !isGap c then
      lexError context ("expected ' ', but found " ++ Text.quoted c.toString) (← here)
    let handle := cs.takeWhile (· != '!')
    if handle.length < cs.length then
      return .tag ("!" ++ String.ofList handle ++ "!")
        (String.ofList (cs.drop (handle.length + 1)))
    else return .tag "!" (String.ofList cs)

/-- Reads a directive; only its name is of interest. -/
def readDirective : Lex Piece := do
  forward 1
  let name ← takeWhile isAnchorChar
  let _ ← takeWhile fun c => !isBreakOrEnd c
  let _ ← takeBreak
  return .directive (String.ofList name)

/-- Leaves all blocks, as at the border of a document. -/
def leaveAll : Lex Unit := do
  unwindAll none
  dropKey
  allowKey false

/-- Reads the colon after a key. -/
def readColon (start : Mark) : Lex Unit := do
  let s ← get
  match s.keys.find? fun k => k.1 == s.depth with
  | some (_, key) =>
    modify fun s => { s with keys := s.keys.filter fun k => k.1 != s.depth }
    pushAt key.number .key key.mark
    if s.depth == 0 then
      if ← addIndent key.mark.column then pushAt key.number .blockMappingStart key.mark
    allowKey false
  | none =>
    if s.depth == 0 then
      if !s.keyAllowed then lexError none "mapping values are not allowed here" start
      if ← addIndent start.column then push .blockMappingStart start
    allowKey (s.depth == 0)
    dropKey
  forward 1
  push .value start

/-- Can a plain text begin here? -/
def plainBegins : Lex Bool := do
  let c ← peek 0
  let next ← peek 1
  let flow := (← get).depth != 0
  return (!isGap c && !"-?:,[]\x7b\x7d#&*!|>'\"%@`".toList.contains c) ||
    (!isGap next && (c == '-' || (!flow && (c == '?' || c == ':'))))

/-- Reads a token that may be a key. -/
def readKeyLike (start : Mark) (read : Lex Piece) : Lex Unit := do
  saveKey
  allowKey false
  push (← read) start

/-- Reads the next token. -/
def lexNext : Lex Unit := do
  if (← here).index == 0 && (← peek 0) == '\ufeff' then forward 1
  skipGaps (← room)
  let keys ← dropStale (← get).keys
  modify fun s => { s with keys }
  let start ← here
  unwindAll (some start.column)
  let c ← peek 0
  let next ← peek 1
  let flow := (← get).depth != 0
  let separator ← atSeparator
  if c == '\x00' then
    leaveAll
    modify fun s => { s with keys := [], done := true }
    push .streamEnd start
  else if c == '%' && start.column == 0 then
    leaveAll
    push (← readDirective) start
  else if c == '-' && start.column == 0 && separator then
    leaveAll
    forward 3
    push .documentStart start
  else if c == '.' && start.column == 0 && separator then
    leaveAll
    forward 3
    push .documentEnd start
  else if c == '[' || c == '\x7b' then
    saveKey
    modify fun s => { s with depth := s.depth + 1, keyAllowed := true }
    forward 1
    push (if c == '[' then .flowSequenceStart else .flowMappingStart) start
  else if c == ']' || c == '\x7d' then
    dropKey
    modify fun s => { s with depth := s.depth - 1, keyAllowed := false }
    forward 1
    push (if c == ']' then .flowSequenceEnd else .flowMappingEnd) start
  else if c == ',' then
    allowKey true
    dropKey
    forward 1
    push .flowEntry start
  else if c == '-' && isGap next then
    if !flow then
      if !(← get).keyAllowed then lexError none "sequence entries are not allowed here" start
      if ← addIndent start.column then push .blockSequenceStart start
    allowKey true
    dropKey
    forward 1
    push .blockEntry start
  else if c == '?' && (flow || isGap next) then
    if !flow then
      if !(← get).keyAllowed then lexError none "mapping keys are not allowed here" start
      if ← addIndent start.column then push .blockMappingStart start
    allowKey (!flow)
    dropKey
    forward 1
    push .key start
  else if c == ':' && (flow || isGap next) then readColon start
  else if c == '*' then readKeyLike start (return .alias (← anchorName "alias"))
  else if c == '&' then readKeyLike start (return .anchor (← anchorName "anchor"))
  else if c == '!' then readKeyLike start readTag
  else if (c == '|' || c == '>') && !flow then
    allowKey true
    dropKey
    let text ← blockScalar (c == '>')
    push (.scalar text false) start
  else if c == '\'' || c == '"' then
    readKeyLike start (return .scalar (← quotedScalar (c == '"')) false)
  else if ← plainBegins then
    saveKey
    allowKey false
    let text ← plainScalar
    push (.scalar text true) start
  else
    lexError (some ("while scanning for the next token", none))
      ("found character " ++ Text.quoted c.toString ++ " that cannot start any token") start

/-- Reads tokens until the end or a problem. -/
def lexFrom : Nat → Lexing → Array Lexeme × Option Problem
  | 0, s => (s.tokens, none)
  | fuel + 1, s =>
    if s.done then (s.tokens, none)
    else
      match lexNext.run s with
      | .ok ((), s) => lexFrom fuel s
      | .error p => (s.tokens, some p)

/-- The tokens of a document, and the problem that ended them if one did. -/
def lexAll (source : Source) : Array Lexeme × Option Problem :=
  lexFrom (2 * source.size + 10)
    { source, place := ⟨0, 0, 0⟩, tokens := #[], done := false, depth := 0, indent := none,
      outer := [], keyAllowed := true, keys := [] }

end Parley.Markup
