import Parley.Text.Pieces

/-!
# The command line

The shell is started with options, the name of a script and the script's arguments. A long option
may be shortened as long as it stays unique, its value may stand behind an equals sign; short
options may be joined, and a value may follow the last of them at once. After `--` nothing is an
option.

All arguments in front of the first option, or behind it, are positional; once some have been taken,
those that come later are left over, and anything left over is refused.
-/

namespace Parley.CommandLine

/-- The options. -/
inductive Flag where
  | help
  | environment
  | skipRc
  | debugInternals
  | version
  deriving DecidableEq, Repr

/-- The names of the options, in the order in which they are looked up. -/
def flagNames : List (String × Flag) :=
  [ ("-h", .help), ("--help", .help), ("--environment", .environment), ("-e", .environment),
    ("--skip-rc", .skipRc), ("-s", .skipRc), ("--debug-internals", .debugInternals),
    ("--version", .version) ]

/-- Is an option followed by a value? -/
def Flag.takesValue : Flag → Bool
  | .environment => true
  | _ => false

/-- What the argument of an option holds besides its name. -/
inductive Tail where
  | nothing
  /-- More characters right behind a letter. -/
  | joined (text : String)
  /-- A value behind an equals sign. -/
  | assigned (value : String)

/-- What an argument is. -/
inductive Piece where
  /-- A positional argument, or the value of an option. -/
  | word (text : String)
  /-- The first `--`. -/
  | separator
  /-- An option; there may be none of that name. -/
  | option (flag : Option Flag) (tail : Tail)

/-- The arguments are not accepted. -/
inductive Refusal where
  | refused
  deriving DecidableEq, Repr

/-- The name and the value of an argument with an equals sign. -/
def splitValue (arg : String) : String × Tail :=
  let cs := arg.toList
  let name := cs.takeWhile (· != '=')
  if name.length == cs.length then (arg, .nothing)
  else (String.ofList name, .assigned (String.ofList (cs.drop (name.length + 1))))

/-- The options whose long name begins like an argument. -/
def longMatches (arg : String) : List Piece :=
  let (name, tail) := splitValue arg
  (flagNames.filter fun f => Text.beginsWith name.toList f.1.toList).map fun f =>
    .option f.2 tail

/-- The options that a single dash may mean: the option of the first letter, with the rest joined to
it, and options whose name begins like the argument. -/
def shortMatches (arg : String) : List Piece :=
  let short := String.ofList (arg.toList.take 2)
  flagNames.filterMap fun f =>
    if f.1 == short then some (.option f.2 (.joined (String.ofList (arg.toList.drop 2))))
    else if Text.beginsWith arg.toList f.1.toList then some (.option f.2 .nothing)
    else none

/-- Is this a number below zero? -/
def isNegativeNumber (arg : String) : Bool :=
  match arg.toList with
  | '-' :: cs =>
    let rest := cs.dropWhile Char.isDigit
    match rest with
    | [] => !cs.isEmpty
    | '.' :: fraction => !fraction.isEmpty && fraction.all Char.isDigit
    | _ => false
  | _ => false

/-- What an argument that stands before `--` is. -/
def classifyOne (arg : String) : Except Refusal Piece :=
  match arg.toList with
  | '-' :: second :: _ =>
    match flagNames.lookup arg with
    | some flag => .ok (.option flag .nothing)
    | none =>
      let (name, tail) := splitValue arg
      match flagNames.lookup name, tail with
      | some flag, .assigned v => .ok (.option flag (.assigned v))
      | _, _ =>
        match if second == '-' then longMatches arg else shortMatches arg with
        | [piece] => .ok piece
        | _ :: _ :: _ => .error .refused
        | [] =>
          if isNegativeNumber arg || arg.toList.contains ' ' then .ok (.word arg)
          else .ok (.option none .nothing)
  | _ => .ok (.word arg)

/-- What the arguments are. -/
def classify : List String → Except Refusal (List Piece)
  | [] => .ok []
  | arg :: rest =>
    if arg == "--" then .ok (.separator :: rest.map .word)
    else do
      let piece ← classifyOne arg
      let more ← classify rest
      .ok (piece :: more)

/-- What the arguments ask for. -/
structure Request where
  environment : List String := []
  skipRc : Bool := false
  debugInternals : Bool := false
  version : Bool := false
  /-- Help is to be shown, and nothing else is to be done. -/
  help : Bool := false
  script : Option String := none
  scriptArgs : List String := []

/-- Notes an option. -/
def Request.note (r : Request) (value : String) : Flag → Request
  | .help => { r with help := true }
  | .environment => { r with environment := r.environment ++ [value] }
  | .skipRc => { r with skipRc := true }
  | .debugInternals => { r with debugInternals := true }
  | .version => { r with version := true }

/-- What has come of an option and what is joined to it. -/
structure Joined where
  request : Request
  /-- The option that still needs a value. -/
  pending : Option Flag := none
  /-- Is a letter left over that is no option? -/
  left : Bool := false

/-- The letters behind an option of one letter: a value, or further options of one letter. Each
round takes one letter. -/
def readLetters : Nat → Flag → List Char → Request → Except Refusal Joined
  | 0, _, _, _ => .error .refused
  | rounds + 1, flag, letters, r =>
    if flag.takesValue then .ok { request := r.note (String.ofList letters) flag }
    else
      match letters with
      | [] | '-' :: _ => .error .refused
      | c :: rest =>
        let r := r.note "" flag
        match flagNames.lookup (String.ofList ['-', c]), rest with
        | none, _ => .ok { request := r, left := true }
        | some flag, [] =>
          .ok (if flag.takesValue then { request := r, pending := flag }
            else { request := r.note "" flag })
        | some flag, '=' :: value =>
          if flag.takesValue then .ok { request := r.note (String.ofList value) flag }
          else .error .refused
        | some flag, rest => readLetters rounds flag rest r

/-- An option with its tail. -/
def readTail (flag : Flag) (tail : Tail) (r : Request) : Except Refusal Joined :=
  match tail with
  | .nothing =>
    .ok (if flag.takesValue then { request := r, pending := flag }
      else { request := r.note "" flag })
  | .joined letters => readLetters (letters.length + 1) flag letters.toList r
  | .assigned value =>
    if flag.takesValue then .ok { request := r.note value flag } else .error .refused

/-- An option with everything that belongs to it: whether something is left over, and the pieces
behind it. -/
def readOption (flag : Flag) (tail : Tail) (rest : List Piece) (r : Request) :
    Except Refusal (Request × Bool × List Piece) := do
  let joined ← readTail flag tail r
  match joined.pending, rest with
  | none, rest => .ok (joined.request, joined.left, rest)
  | some flag, .word v :: rest => .ok (joined.request.note v flag, joined.left, rest)
  | some _, _ => .error .refused

/-- The texts of positional arguments. -/
def positionals (pieces : List Piece) : List String :=
  pieces.filterMap fun
    | .word s => some s
    | .separator => some "--"
    | .option _ _ => none

/-- Is this an option? -/
def Piece.isOption : Piece → Bool
  | .option _ _ => true
  | _ => false

/-- Takes the script and its arguments from the pieces up to the next option. The separator goes to
the script if it stands before it or right behind it; in any case it is not among the arguments. -/
def Request.takePositionals (r : Request) (pieces : List Piece) : Request :=
  match pieces with
  | .separator :: .word s :: rest | .word s :: .separator :: rest | .word s :: rest =>
    { r with script := s, scriptArgs := (positionals rest).erase "--" }
  | _ => r

/-- Goes through the pieces. `placed` tells whether the positional arguments have been taken, `left`
whether something is left over. Asking for help ends it at once. -/
def readPieces : Nat → Bool → Bool → List Piece → Request → Except Refusal Request
  | 0, _, _, _, r => .ok r
  | _ + 1, _, left, [], r => if left then .error .refused else .ok r
  | rounds + 1, placed, left, piece :: rest, r => do
    match piece with
    | .option none _ => readPieces rounds placed true rest r
    | .option (some flag) tail =>
      let (r, more, rest) ← readOption flag tail rest r
      if r.help then .ok r else readPieces rounds placed (left || more) rest r
    | _ =>
      let here := (piece :: rest).takeWhile fun p => !p.isOption
      let behind := (piece :: rest).dropWhile fun p => !p.isOption
      if placed then readPieces rounds placed true behind r
      else readPieces rounds true left behind (r.takePositionals here)

/-- What the arguments ask for. -/
def read (args : List String) : Except Refusal Request := do
  let pieces ← classify args
  readPieces (pieces.length + 1) false false pieces {}

end Parley.CommandLine
