import Parley.World.Disk

/-!
# Commands of the system

The small part of the system's command language that the shell can do by itself: commands one after
the other, each made of words with quotes, whose output is collected. Commands that are not known
write nothing. Files are read from the disk and never changed. It stands in for the command language
of a real system, to which the shell hands its commands over as they are.
-/

namespace Parley.Shell

/-- A word, or a sign between commands. -/
inductive Token where
  | word (text : List Char)
  | next
  | andThen
  | orElse
  /-- Output goes elsewhere from here on. -/
  | away
  deriving DecidableEq, Repr

/-- Where the reader of words is. -/
inductive Quote where
  | outside
  | single
  | double
  deriving DecidableEq, Repr

/-- Ends the word being read, if there is one. -/
def close (word : Option (List Char)) (rest : List Token) : List Token :=
  match word with
  | some cs => .word cs.reverse :: rest
  | none => rest

/-- Adds a character to the word being read. -/
def grow (word : Option (List Char)) (c : Char) : Option (List Char) :=
  some (c :: word.getD [])

/-- Cuts a text into words and signs; `word` is the word being read, last character first. -/
def splitFrom : Quote → Option (List Char) → List Char → List Token
  | _, word, [] => close word []
  | .single, word, c :: rest =>
    if c == '\'' then splitFrom .outside (some (word.getD [])) rest
    else splitFrom .single (grow word c) rest
  | .double, word, '\\' :: c :: rest =>
    if c == '"' || c == '\\' || c == '$' || c == '`' then splitFrom .double (grow word c) rest
    else splitFrom .double (grow (grow word '\\') c) rest
  | .double, word, c :: rest =>
    if c == '"' then splitFrom .outside (some (word.getD [])) rest
    else splitFrom .double (grow word c) rest
  | .outside, word, '\\' :: c :: rest => splitFrom .outside (grow word c) rest
  | .outside, word, '&' :: '&' :: rest => close word (.andThen :: splitFrom .outside none rest)
  | .outside, word, '|' :: '|' :: rest => close word (.orElse :: splitFrom .outside none rest)
  | .outside, some ['1'], '>' :: '&' :: '2' :: rest => .away :: splitFrom .outside none rest
  | .outside, word, '>' :: '&' :: '2' :: rest =>
    close word (.away :: splitFrom .outside none rest)
  | .outside, some ['2'], '>' :: '&' :: '1' :: rest => splitFrom .outside none rest
  | .outside, word, c :: rest =>
    if c == '\'' then splitFrom .single (some (word.getD [])) rest
    else if c == '"' then splitFrom .double (some (word.getD [])) rest
    else if c == ' ' || c == '\t' then close word (splitFrom .outside none rest)
    else if c == ';' || c == '\n' then close word (.next :: splitFrom .outside none rest)
    else splitFrom .outside (grow word c) rest

/-- Cuts a text into words and signs. -/
def split (text : String) : List Token :=
  splitFrom .outside none text.toList

/-- What a backslash and a letter stand for in the words of `echo` and `printf`. -/
def unescape : List Char → List Char
  | '\\' :: 'n' :: rest => '\n' :: unescape rest
  | '\\' :: 't' :: rest => '\t' :: unescape rest
  | '\\' :: 'r' :: rest => '\r' :: unescape rest
  | '\\' :: '\\' :: rest => '\\' :: unescape rest
  | c :: rest => c :: unescape rest
  | [] => []

/-- Fills the holes of a format with words. -/
def format : List Char → List (List Char) → List Char
  | '%' :: 's' :: rest, w :: ws => w ++ format rest ws
  | '%' :: 's' :: rest, [] => format rest []
  | '%' :: 'd' :: rest, w :: ws => w ++ format rest ws
  | '%' :: 'd' :: rest, [] => '0' :: format rest []
  | '%' :: '%' :: rest, ws => '%' :: format rest ws
  | c :: rest, ws => c :: format rest ws
  | [], _ => []

/-- Words with blanks between them. -/
def spaced (words : List (List Char)) : List Char :=
  List.intercalate [' '] words

/-- The texts of files one after the other, and whether all of them could be read. -/
def concatenate (d : Disk) : List (List Char) → List Char × Bool
  | [] => ([], true)
  | name :: rest =>
    let (more, ok) := concatenate d rest
    match d.textOf? (d.resolve (String.ofList name)) with
    | some text => (text.toList ++ more, ok)
    | none => (more, false)

/-- The output of a command, and whether it succeeded. -/
def command (d : Disk) : List (List Char) → List Char × Bool
  | [] => ([], true)
  | name :: args =>
    match String.ofList name with
    | "echo" =>
      match args with
      | ['-', 'n'] :: rest => (unescape (spaced rest), true)
      | args => (unescape (spaced args) ++ ['\n'], true)
    | "printf" =>
      match args with
      | [] => ([], false)
      | f :: ws => (format (unescape f) ws, true)
    | "cat" => concatenate d args
    | "pwd" => (d.working.toList ++ ['\n'], true)
    | "true" | ":" => ([], true)
    | _ => ([], false)

/-- The words of the first command, whether its output goes elsewhere, and what follows. -/
def firstCommand : List Token → List (List Char) × Bool × List Token
  | .word w :: rest =>
    let (ws, away, more) := firstCommand rest
    (w :: ws, away, more)
  | .away :: rest =>
    let (ws, _, more) := firstCommand rest
    (ws, true, more)
  | rest => ([], false, rest)

/-- The output of commands; the first argument bounds their number. -/
def runFrom (d : Disk) : Nat → Bool → List Token → List Char
  | 0, _, _ => []
  | fuel + 1, wanted, tokens =>
    let (words, away, rest) := firstCommand tokens
    if wanted && words.head? == some "exit".toList then []
    else
      let (out, ok) := if wanted then command d words else ([], true)
      let shown := if away then [] else out
      match rest with
      | [] => shown
      | .andThen :: rest => shown ++ runFrom d fuel (wanted && ok) rest
      | .orElse :: rest => shown ++ runFrom d fuel (wanted && !ok) rest
      | _ :: rest => shown ++ runFrom d fuel true rest

/-- The output of a text of commands. -/
def run (d : Disk) (text : String) : String :=
  let tokens := split text
  String.ofList (runFrom d (tokens.length + 1) true tokens)

end Parley.Shell
