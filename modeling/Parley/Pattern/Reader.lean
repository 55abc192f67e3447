import Parley.Fault
import Parley.Number.Text
import Parley.Pattern.Basic

/-!
# Reading regular expressions

Turns the text of a regular expression into a tree, or says what is wrong with it and where. The
text is first cut into symbols: a character, or a backslash with the character after it. A
backslash at the very end is noticed as soon as it is the next symbol.
-/

namespace Parley.Pattern

/-- A regular expression with the number of its groups and their names. -/
structure Regex where
  root : Node
  groups : Nat
  names : List (String × Nat)

/-- A problem in a text at a place; the place counts characters. -/
def problemAt (source : List Char) (message : String) (place : Nat) : Fault :=
  let before := source.take place
  let here := s!"{message} at position {place}"
  if source.contains '\n' then
    let line := before.count '\n' + 1
    let column := (before.reverse.takeWhile (· ≠ '\n')).length + 1
    .pattern s!"{here} (line {line}, column {column})"
  else .pattern here

/-- Cuts a text into symbols. -/
def symbols : List Char → List (List Char)
  | [] => []
  | '\\' :: c :: rest => ['\\', c] :: symbols rest
  | c :: rest => [c] :: symbols rest

/-- What is known while a regular expression is read. -/
structure Reading where
  /-- The whole text. -/
  source : List Char
  /-- The symbols still to be read. -/
  rest : List (List Char)
  /-- The place of the first of them. -/
  place : Nat
  /-- The number of the next group. -/
  nextGroup : Nat := 1
  /-- The groups that are not closed yet. -/
  openGroups : List Nat := []
  names : List (String × Nat) := []
  /-- The widths of the closed groups. -/
  widths : List (Nat × Width) := []
  /-- The first group that a look-behind may not refer to. -/
  behindLimit : Option Nat := none
  /-- Groups that conditions refer to, with the place of the reference. -/
  references : List (Nat × Nat) := []
  /-- The switches in force from the start. -/
  flags : Flags := {}

/-- The reading of a regular expression: it can fail, and it moves on. -/
abbrev Reader := StateT Reading (Except Fault)

/-- Fails with a problem `back` characters before the current place. -/
def problem {α : Type} (message : String) (back : Nat) : Reader α := do
  let r ← get
  throw (problemAt r.source message (r.place - back))

/-- A backslash at the end of the text cannot be the next symbol. -/
def checkNext : Reader Unit := do
  let r ← get
  match r.rest with
  | [['\\']] =>
    throw (problemAt r.source "bad escape (end of pattern)" (r.source.length - 1))
  | _ => pure ()

/-- The next symbol. -/
def peek : Reader (Option (List Char)) := do
  return (← get).rest.head?

/-- Takes the next symbol. -/
def take : Reader (Option (List Char)) := do
  let r ← get
  match r.rest with
  | [] => return none
  | s :: rest =>
    set { r with rest := rest, place := r.place + s.length }
    checkNext
    return some s

/-- Takes the next symbol if it is the given character. -/
def takeIf (c : Char) : Reader Bool := do
  if (← peek) == some [c] then
    discard take
    return true
  else return false

/-- Takes characters of a class, at most `n`. -/
def takeWhile (p : Char → Bool) : Nat → Reader (List Char)
  | 0 => return []
  | n + 1 => do
    match ← peek with
    | some [c] =>
      if p c then
        discard take
        return c :: (← takeWhile p n)
      else return []
    | _ => return []

/-- Is this a digit in base eight? -/
def isOctal (c : Char) : Bool := '0' ≤ c && c ≤ '7'

/-- Is this a digit in base sixteen? -/
def isHex (c : Char) : Bool := c.isDigit || ('a' ≤ c && c ≤ 'f') || ('A' ≤ c && c ≤ 'F')

/-- The value of digits in a base. -/
def digitsIn (base : Nat) (cs : List Char) : Nat :=
  cs.foldl (fun n c =>
    base * n + (if c.isDigit then c.toNat - '0'.toNat
      else if 'a' ≤ c then c.toNat - 'a'.toNat + 10 else c.toNat - 'A'.toNat + 10)) 0

/-- The characters that one-letter escapes stand for. -/
def controlEscape? : Char → Option Char
  | 'a' => some '\x07'
  | 'b' => some '\x08'
  | 'f' => some '\x0c'
  | 'n' => some '\n'
  | 'r' => some '\r'
  | 't' => some '\t'
  | 'v' => some '\x0b'
  | '\\' => some '\\'
  | _ => none

/-- The classes that one-letter escapes stand for. -/
def classEscape? : Char → Option SetItem
  | 'd' => some (.named .digit false)
  | 'D' => some (.named .digit true)
  | 's' => some (.named .blank false)
  | 'S' => some (.named .blank true)
  | 'w' => some (.named .word false)
  | 'W' => some (.named .word true)
  | _ => none

/-- The places that one-letter escapes stand for. -/
def anchorEscape? : Char → Option Anchor
  | 'A' => some .textStart
  | 'b' => some .boundary
  | 'B' => some .noBoundary
  | 'Z' => some .textEnd
  | _ => none

/-- The escapes that give a character by its number: `x`, `u` and `U` with two, four and eight
digits. -/
def numbered? (c : Char) : Option Nat :=
  if c == 'x' then some 2 else if c == 'u' then some 4 else if c == 'U' then some 8 else none

/-- Reads the digits of a numbered escape. -/
def readNumbered (letter : Char) (count : Nat) : Reader Char := do
  let ds ← takeWhile isHex count
  let text := String.ofList ('\\' :: letter :: ds)
  if ds.length ≠ count then problem s!"incomplete escape {text}" text.length
  else
    let n := digitsIn 16 ds
    if n ≥ 0x110000 then problem s!"bad escape {text}" text.length
    else return Char.ofNat n

/-- Refuses a reference to a group that a look-behind may not refer to. -/
def checkBehind (group : Nat) : Reader Unit := do
  let r ← get
  match r.behindLimit with
  | none => pure ()
  | some limit =>
    if r.openGroups.contains group || group ≥ r.nextGroup then
      problem "cannot refer to an open group" 0
    else if group ≥ limit then
      problem "cannot refer to group defined in the same lookbehind subpattern" 0
    else pure ()

/-- Reads an escape outside a set. -/
def readEscape (flags : Flags) (c : Char) : Reader Node := do
  if let some a := anchorEscape? c then return .anchor flags a
  if let some i := classEscape? c then return .set flags ⟨false, [i]⟩
  if let some ch := controlEscape? c then return .char flags ch
  if let some count := numbered? c then return .char flags (← readNumbered c count)
  if c == '0' then
    let ds ← takeWhile isOctal 2
    return .char flags (Char.ofNat (digitsIn 8 (c :: ds)))
  if c.isDigit then
    let second ← takeWhile Char.isDigit 1
    let third ← if isOctal c && second.any isOctal then takeWhile isOctal 1 else pure []
    let ds := c :: second ++ third
    let text := String.ofList ('\\' :: ds)
    if third.length = 1 then
      let n := digitsIn 8 ds
      if n > 0o377 then
        problem s!"octal escape value {text} outside of range 0-0o377" text.length
      else return .char flags (Char.ofNat n)
    else
      let group := digitsIn 10 ds
      let r ← get
      if group < r.nextGroup then
        if r.openGroups.contains group then
          problem "cannot refer to an open group" text.length
        else
          checkBehind group
          return .back flags group
      else problem s!"invalid group reference {group}" (text.length - 1)
  if c.isAlpha then problem s!"bad escape \\{c}" 2
  else return .char flags c

/-- Reads an escape inside a set. -/
def readSetEscape (c : Char) : Reader SetItem := do
  if let some ch := controlEscape? c then return .char ch
  if let some i := classEscape? c then return i
  if let some count := numbered? c then return .char (← readNumbered c count)
  if isOctal c then
    let ds := c :: (← takeWhile isOctal 2)
    let n := digitsIn 8 ds
    let text := String.ofList ('\\' :: ds)
    if n > 0o377 then
      problem s!"octal escape value {text} outside of range 0-0o377" text.length
    else return .char (Char.ofNat n)
  if c.isDigit || c.isAlpha then problem s!"bad escape \\{c}" 2
  else return .char c

/-- Reads one member of a set from a symbol. -/
def readSetMember : List Char → Reader SetItem
  | ['\\', c] => readSetEscape c
  | c :: _ => return .char c
  | [] => return .char ' '

/-- Reads the items of a set up to the closing bracket; `opening` is the place of the opening
one and `done` holds the items read, last first. -/
def readSet (opening : Nat) : Nat → List SetItem → Reader (List SetItem)
  | 0, done => return done.reverse
  | budget + 1, done => do
    let unterminated {α : Type} : Reader α := do
      problem "unterminated character set" ((← get).place - opening)
    match ← take with
    | none => unterminated
    | some this =>
      if this == [']'] && !done.isEmpty then return done.reverse
      else
        let first ← readSetMember this
        if ← takeIf '-' then
          match ← take with
          | none => unterminated
          | some [']'] => return (.char '-' :: first :: done).reverse
          | some that =>
            let second ← readSetMember that
            let bad {α : Type} : Reader α :=
              let a := String.ofList this
              let b := String.ofList that
              problem s!"bad character range {a}-{b}" (this.length + 1 + that.length)
            match first, second with
            | .char low, .char high =>
              if high < low then bad
              else readSet opening budget (.range low high :: done)
            | _, _ => bad
        else readSet opening budget (first :: done)

/-- Takes characters up to a closing one, which is taken too. -/
def takeUntil (closing : Char) (what : String) : Nat → List Char → Reader (List Char)
  | 0, done => return done
  | budget + 1, done => do
    match ← take with
    | none =>
      if done.isEmpty then problem s!"missing {what}" 0
      else problem s!"missing {closing}, unterminated name" done.length
    | some s =>
      if s == [closing] then
        if done.isEmpty then problem s!"missing {what}" 1 else return done
      else takeUntil closing what budget (done ++ s)

/-- Is this text a name? -/
def isName : List Char → Bool
  | [] => false
  | c :: rest => (Text.isWord c && !Text.isDecimal c) && rest.all Text.isWord

/-- Refuses a group name that is no name. -/
def checkGroupName (name : List Char) : Reader Unit := do
  if isName name then pure ()
  else
    let shown := Text.quoted (String.ofList name)
    problem s!"bad character in group name {shown}" (name.length + 1)

/-- The switch of a letter, set in the given switches. -/
def switchOf? (c : Char) (flags : Flags) (on : Bool) : Option Flags :=
  match c with
  | 'i' => some { flags with ignoreCase := on }
  | 'm' => some { flags with multiline := on }
  | 's' => some { flags with dotAll := on }
  | 'x' => some { flags with verbose := on }
  | 'a' => some { flags with ascii := on }
  | 'u' => some flags
  | _ => none

/-- Is this the letter of a switch? -/
def isSwitch (c : Char) : Bool :=
  c == 'L' || (switchOf? c {} true).isSome

/-- Is this a letter of some script? -/
def isLetter (c : Char) : Bool :=
  Text.isWord c && !Text.isDecimal c && c != '_'

/-- Reads the letters that turn switches off, up to the colon. -/
def readOff : Nat → Char → Flags → Reader Flags
  | 0, _, flags => return flags
  | budget + 1, c, flags => do
    if c == 'a' || c == 'u' || c == 'L' then
      problem "bad inline flags: cannot turn off flags 'a', 'u' and 'L'" 0
    else
      let flags := (switchOf? c flags false).getD flags
      match ← take with
      | none => problem "missing :" 0
      | some [':'] => return flags
      | some s =>
        match s with
        | [d] =>
          if isSwitch d then readOff budget d flags
          else problem (if isLetter d then "unknown flag" else "missing :") s.length
        | _ => problem "missing :" s.length

/-- Reads the letters of switches; the answer says whether they hold for the whole expression. -/
def readSwitches : Nat → Char → Flags → Reader (Bool × Flags)
  | 0, _, flags => return (false, flags)
  | budget + 1, c, flags => do
    if c == '-' then
      match ← take with
      | none => problem "missing flag" 0
      | some [d] =>
        if isSwitch d then return (false, ← readOff budget d flags)
        else problem (if isLetter d then "unknown flag" else "missing flag") 1
      | some s => problem "missing flag" s.length
    else if c == 'L' then
      problem "bad inline flags: cannot use 'L' flag with a str pattern" 0
    else
      let flags := (switchOf? c flags true).getD flags
      match ← take with
      | none => problem "missing -, : or )" 0
      | some [')'] => return (true, flags)
      | some [':'] => return (false, flags)
      | some ['-'] => readSwitches budget '-' flags
      | some s =>
        match s with
        | [d] =>
          if isSwitch d then readSwitches budget d flags
          else problem (if isLetter d then "unknown flag" else "missing -, : or )") s.length
        | _ => problem "missing -, : or )" s.length

/-- Opens a group. -/
def openGroup (name : Option (List Char)) : Reader Nat := do
  let r ← get
  let index := r.nextGroup
  match name with
  | some n =>
    let key := String.ofList n
    match r.names.lookup key with
    | some old =>
      let shown := Text.quoted key
      problem s!"redefinition of group name {shown} as group {index}; was group {old}"
        (n.length + 1)
    | none => set { r with names := r.names ++ [(key, index)] }
  | none => pure ()
  modify fun r => { r with nextGroup := index + 1, openGroups := index :: r.openGroups }
  return index

/-- The width of a closed group. -/
def groupWidth (widths : List (Nat × Width)) (index : Nat) : Width :=
  (widths.lookup index).getD (0, some 0)

/-- Closes a group. -/
def closeGroup (index : Nat) (body : Node) : Reader Unit :=
  modify fun r =>
    { r with
      openGroups := r.openGroups.erase index,
      widths := (index, body.width (groupWidth r.widths)) :: r.widths }

/-- Takes the closing parenthesis of what was opened at `opening`. -/
def closeParen (opening : Nat) : Reader Unit := do
  if ← takeIf ')' then pure ()
  else problem "missing ), unterminated subpattern" ((← get).place - opening)

/-- The bounds between braces, if the text continues that way: least, greatest, and whether each
was given. -/
def readBraces : Reader (Option (Nat × Option Nat)) := do
  let saved ← get
  let low ← takeWhile Char.isDigit saved.rest.length
  let high ← if ← takeIf ',' then takeWhile Char.isDigit saved.rest.length else pure low
  if ← takeIf '\x7d' then
    let least := digitsIn 10 low
    let most := if high.isEmpty then none else some (digitsIn 10 high)
    return some (least, most)
  else
    set saved
    return none

/-- May this item not be repeated because it is a place? -/
def isAnchor : Node → Bool
  | .anchor _ _ => true
  | _ => false

/-- Is this item a repetition already? -/
def isRepeated : Node → Bool
  | .repeated _ _ _ _ => true
  | _ => false

/-- Skips a comment up to the end of its line. -/
def skipLine : Nat → Reader Unit
  | 0 => pure ()
  | budget + 1 => do
    match ← take with
    | none => pure ()
    | some ['\n'] => pure ()
    | some _ => skipLine budget

/-- Skips a comment up to its closing parenthesis. -/
def skipComment (opening : Nat) : Nat → Reader Unit
  | 0 => pure ()
  | budget + 1 => do
    match ← peek with
    | none => problem "missing ), unterminated comment" ((← get).place - opening)
    | some _ =>
      if (← take) == some [')'] then pure () else skipComment opening budget

/-- Applies a repetition to the last item read. -/
def repeatLast (start : Nat) (least : Nat) (most : Option Nat) (done : List Node) :
    Reader (List Node) := do
  let here := (← get).place
  match done with
  | [] => problem "nothing to repeat" (here - start)
  | item :: before =>
    if isAnchor item then problem "nothing to repeat" (here - start)
    else if isRepeated item then problem "multiple repeat" (here - start)
    else
      let greed ← do
        if ← takeIf '?' then pure Greed.lazy
        else if ← takeIf '+' then pure Greed.possessive
        else pure Greed.greedy
      return .repeated least most greed item :: before

/-- The character that a symbol escapes. -/
def escaped? : List Char → Option Char
  | [mark, c] => if mark == '\\' then some c else none
  | _ => none

mutual

/-- Reads a choice between sequences. -/
def readChoice : Nat → Flags → Bool → Reader Node
  | 0, _, _ => return .fail
  | budget + 1, flags, top => do
    let first ← readSequence budget flags top []
    let now := (← get).flags
    let rest ← readChoices budget (if top then now else flags)
    match rest with
    | [] => return first
    | _ => return .choice (first :: rest)

/-- Reads the further branches of a choice. -/
def readChoices : Nat → Flags → Reader (List Node)
  | 0, _ => return []
  | budget + 1, flags => do
    if ← takeIf '|' then
      let branch ← readSequence budget flags false []
      return branch :: (← readChoices budget flags)
    else return []

/-- Reads items up to a bar, a closing parenthesis or the end; `top` says whether switches for
the whole expression may still come, and `done` holds the items read, last first. -/
def readSequence : Nat → Flags → Bool → List Node → Reader Node
  | 0, _, _, done => return .seq done.reverse
  | budget + 1, flags, top, done => do
    match ← peek with
    | none => return .seq done.reverse
    | some ['|'] | some [')'] => return .seq done.reverse
    | some this => do
      let start := (← get).place
      discard take
      let continueWith (n : Node) : Reader Node := readSequence budget flags top (n :: done)
      let repeatWith (least : Nat) (most : Option Nat) : Reader Node := do
        readSequence budget flags top (← repeatLast start least most done)
      match escaped? this with
      | some c => continueWith (← readEscape flags c)
      | none =>
        match this with
        | ['.'] => continueWith (.any flags)
        | ['^'] => continueWith (.anchor flags .lineStart)
        | ['$'] => continueWith (.anchor flags .lineEnd)
        | ['['] => do
          let negated ← takeIf '^'
          let items ← readSet start ((← get).rest.length + 1) []
          continueWith (.set flags ⟨negated, items⟩)
        | ['?'] => repeatWith 0 (some 1)
        | ['*'] => repeatWith 0 none
        | ['+'] => repeatWith 1 none
        | ['\x7b'] => do
          if (← peek) == some ['\x7d'] then continueWith (.char flags '\x7b')
          else
            let here := (← get).place
            match ← readBraces with
            | none => continueWith (.char flags '\x7b')
            | some (least, most) =>
              if most.any (· < least) then
                problem "min repeat greater than max repeat" ((← get).place - here)
              else repeatWith least most
        | ['('] => do
          match ← readGroup budget flags (top && done.isEmpty) start with
          | none => readSequence budget (← get).flags top done
          | some [] => readSequence budget flags top done
          | some (n :: _) => continueWith n
        | c :: _ =>
          if flags.verbose && (Text.isBlank c && c.toNat < 0x80) then
            readSequence budget flags top done
          else if flags.verbose && c == '#' then do
            skipLine ((← get).rest.length + 1)
            readSequence budget flags top done
          else continueWith (.char flags c)
        | [] => readSequence budget flags top done

/-- Reads what follows an opening parenthesis at `start`. Switches for the whole expression give
`none`, a comment gives no item. -/
def readGroup : Nat → Flags → Bool → Nat → Reader (Option (List Node))
  | 0, _, _, _ => return some []
  | budget + 1, flags, first, start => do
    let captured (name : Option (List Char)) : Reader (Option (List Node)) := do
      let index ← openGroup name
      let body ← readChoice budget flags false
      closeParen start
      closeGroup index body
      return some [.group (some index) body]
    let length := (← get).rest.length + 1
    if ← takeIf '?' then
      match ← take with
      | none => problem "unexpected end of pattern" 0
      | some ['P'] => do
        if ← takeIf '<' then
          let name ← takeUntil '>' "group name" length []
          checkGroupName name
          captured (some name)
        else if ← takeIf '=' then
          let name ← takeUntil ')' "group name" length []
          checkGroupName name
          let key := String.ofList name
          match (← get).names.lookup key with
          | none =>
            let shown := Text.quoted key
            problem s!"unknown group name {shown}" (name.length + 1)
          | some index =>
            if (← get).openGroups.contains index then
              problem "cannot refer to an open group" (name.length + 1)
            else
              checkBehind index
              return some [.back flags index]
        else
          match ← take with
          | none => problem "unexpected end of pattern" 0
          | some s =>
            let shown := String.ofList s
            problem s!"unknown extension ?P{shown}" (s.length + 2)
      | some [':'] => do
        let body ← readChoice budget flags false
        closeParen start
        return some [.group none body]
      | some ['#'] => do
        skipComment start length
        return some []
      | some ['='] => readLook budget flags true false start
      | some ['!'] => readLook budget flags true true start
      | some ['<'] => do
        match ← take with
        | none => problem "unexpected end of pattern" 0
        | some ['='] => readLook budget flags false false start
        | some ['!'] => readLook budget flags false true start
        | some s =>
          let shown := String.ofList s
          problem s!"unknown extension ?<{shown}" (s.length + 2)
      | some ['('] => do
        let name ← takeUntil ')' "group name" length []
        let key := String.ofList name
        let index ←
          if isName name then
            match (← get).names.lookup key with
            | some index => pure index
            | none =>
              let shown := Text.quoted key
              problem s!"unknown group name {shown}" (name.length + 1)
          else
            match Number.intOfText? key with
            | some (.ofNat 0) => problem "bad group number" (name.length + 1)
            | some (.ofNat n) => do
              modify fun r =>
                if (r.references.lookup n).isSome then r
                else { r with references := r.references ++ [(n, r.place - name.length - 1)] }
              pure n
            | _ =>
              let shown := Text.quoted key
              problem s!"bad character in group name {shown}" (name.length + 1)
        checkBehind index
        let yes ← readSequence budget flags false []
        let no ← if ← takeIf '|' then readSequence budget flags false [] else pure (.seq [])
        if (← peek) == some ['|'] then
          problem "conditional backref with more than two branches" 0
        else
          closeParen start
          return some [.whether index yes no]
      | some ['>'] => do
        let body ← readChoice budget flags false
        closeParen start
        return some [.atomic body]
      | some s =>
        match s with
        | [c] =>
          if isSwitch c || c == '-' then do
            let (whole, inner) ← readSwitches length c flags
            if whole then
              if first then
                modify fun r => { r with flags := inner }
                return none
              else
                problem "global flags not at the start of the expression"
                  ((← get).place - start)
            else
              let body ← readChoice budget inner false
              closeParen start
              return some [.group none body]
          else problem s!"unknown extension ?{c}" 2
        | _ =>
          let shown := String.ofList s
          problem s!"unknown extension ?{shown}" (s.length + 1)
    else captured none

/-- Reads a look ahead or behind; a look behind needs a fixed width. -/
def readLook : Nat → Flags → Bool → Bool → Nat → Reader (Option (List Node))
  | 0, _, _, _, _ => return some []
  | budget + 1, flags, ahead, negated, start => do
    let outer := (← get).behindLimit
    if !ahead && outer.isNone then
      modify fun r => { r with behindLimit := some r.nextGroup }
    let body ← readChoice budget flags false
    modify fun r => { r with behindLimit := outer }
    closeParen start
    return some [.look ahead negated body]

end

mutual

/-- Does every look behind inside have a fixed width? -/
def Node.fixedBehind (widths : Nat → Width) : Node → Bool
  | .look ahead _ body =>
    (ahead || (body.width widths).2 == some (body.width widths).1) && body.fixedBehind widths
  | .seq parts => fixedBehindAll widths parts
  | .choice parts => fixedBehindAll widths parts
  | .group _ body => body.fixedBehind widths
  | .repeated _ _ _ body => body.fixedBehind widths
  | .atomic body => body.fixedBehind widths
  | .whether _ yes no => yes.fixedBehind widths && no.fixedBehind widths
  | _ => true

/-- Does every look behind in these have a fixed width? -/
def fixedBehindAll (widths : Nat → Width) : List Node → Bool
  | [] => true
  | n :: rest => n.fixedBehind widths && fixedBehindAll widths rest

end

/-- The regular expression of a text, with the given switches to start from. -/
def compile (flags : Flags) (text : String) : Except Fault Regex := do
  let source := text.toList
  let start : Reading :=
    { source, rest := symbols source, place := 0, flags }
  let whole : Reader Node := do
    checkNext
    let root ← readChoice (3 * source.length + 10) flags true
    match ← peek with
    | some _ => problem "unbalanced parenthesis" 0
    | none => return root
  let (root, r) ← whole.run start
  match r.references.find? fun e => e.1 ≥ r.nextGroup with
  | some (n, place) => .error (problemAt source s!"invalid group reference {n}" place)
  | none =>
    if root.fixedBehind (groupWidth r.widths) then .ok ⟨root, r.nextGroup - 1, r.names⟩
    else .error (.pattern "look-behind requires fixed-width pattern")

end Parley.Pattern
