import Parley.Pattern.Matching

/-!
# Replacing matches

A replacement is text in which a backslash with a number, or `\g` with a number or a name in
angle brackets, stands for a group of the match, and a backslash with a letter for a control
character.
-/

namespace Parley.Pattern

/-- A piece of a replacement. -/
inductive Piece where
  | char (c : Char)
  | group (index : Nat)

/-- A reference to a group, which has to exist. -/
def groupPiece (r : Regex) (index back : Nat) : Reader Piece := do
  if index > r.groups then problem s!"invalid group reference {index}" back
  else return .group index

/-- Reads the name or number of a group in angle brackets. -/
def readNamedPiece (r : Regex) : Reader Piece := do
  if ← takeIf '<' then
    let name ← takeUntil '>' "group name" ((← get).rest.length + 1) []
    let key := String.ofList name
    if isName name then
      match r.names.lookup key with
      | some index => groupPiece r index (name.length + 1)
      | none => throw (.missingGroup key)
    else
      match Number.intOfText? key with
      | some (.ofNat n) => groupPiece r n (name.length + 1)
      | _ =>
        let shown := Text.quoted key
        problem s!"bad character in group name {shown}" (name.length + 1)
  else problem "missing <" 0

/-- Reads what follows a backslash in a replacement. -/
def readEscapedPiece (r : Regex) (c : Char) : Reader (List Piece) := do
  if c == 'g' then return [← readNamedPiece r]
  else if c == '0' then
    let ds ← takeWhile isOctal 2
    return [.char (Char.ofNat (digitsIn 8 (c :: ds) % 256))]
  else if c.isDigit then
    let second ← takeWhile Char.isDigit 1
    let third ← if isOctal c && second.any isOctal then takeWhile isOctal 1 else pure []
    let ds := c :: second ++ third
    if third.length = 1 then
      let n := digitsIn 8 ds
      let text := String.ofList ('\\' :: ds)
      if n > 0o377 then
        problem s!"octal escape value {text} outside of range 0-0o377" text.length
      else return [.char (Char.ofNat n)]
    else return [← groupPiece r (digitsIn 10 ds) ds.length]
  else
    match controlEscape? c with
    | some ch => return [.char ch]
    | none =>
      if c.isAlpha then problem s!"bad escape \\{c}" 2
      else return [.char '\\', .char c]

/-- Reads the pieces of a replacement. -/
def readPieces (r : Regex) : Nat → Reader (List Piece)
  | 0 => return []
  | budget + 1 => do
    match ← take with
    | none => return []
    | some ['\\', c] => do
      let ps ← readEscapedPiece r c
      return ps ++ (← readPieces r budget)
    | some s => return s.map Piece.char ++ (← readPieces r budget)

/-- The pieces of a replacement text. A text without a backslash stands for itself. -/
def Regex.template (r : Regex) (text : String) : Except Fault (List Piece) :=
  let source := text.toList
  if source.contains '\\' then
    let start : Reading := { source, rest := symbols source, place := 0 }
    let whole : Reader (List Piece) := do
      checkNext
      readPieces r (source.length + 1)
    (whole.run start).map (·.1)
  else .ok (source.map Piece.char)

/-- The text of a replacement for a match; a group that took no part gives nothing. -/
def fill (text : Array Char) (m : Match) (ps : List Piece) : String :=
  ps.foldl (fun acc p =>
    match p with
    | .char c => acc.push c
    | .group i => acc ++ (m.group? text i).getD "") ""

/-- The text with all matches replaced. -/
def Regex.replaceWith (r : Regex) (ps : List Piece) (s : String) : String :=
  let text := s.toList.toArray
  go text 0 (r.matches text)
where
  go (text : Array Char) (last : Nat) : List Match → String
    | [] => slice text last text.size
    | m :: rest => slice text last m.start ++ fill text m ps ++ go text m.stop rest

/-- The text with all matches of a pattern replaced; both texts have to be well formed. -/
def replace (pattern replacement s : String) : Except Fault String := do
  let r ← compile {} pattern
  let ps ← r.template replacement
  return r.replaceWith ps s

end Parley.Pattern
