import Parley.Text.Pieces

/-!
# The help of the command line

How the shell is started, with all options, laid out for a terminal of a given width. A line is
never filled to its last two columns. What an option does stands in a column of its own if there is
room for one; an option that is too long for its column has a line to itself.
-/

namespace Parley.CommandLine

/-- The name of the program. -/
def programName : String := "restsh"

/-- The options as they are summed up. -/
def optionParts : List String :=
  ["[-h]", "[--environment ENVIRONMENT]", "[--skip-rc]", "[--debug-internals]", "[--version]"]

/-- The positional arguments as they are summed up. -/
def positionalParts : List String :=
  ["[script]", "[scriptargs ...]"]

/-- Arguments with what they do. -/
def entries : List (String × List (String × String)) :=
  [ ("positional arguments:", [("script", ""), ("scriptargs", "")]),
    ("options:",
      [ ("-h, --help", "show this help message and exit"),
        ("--environment ENVIRONMENT, -e ENVIRONMENT",
          "A script to run before opening the prompt or running the main script"),
        ("--skip-rc, -s", ""),
        ("--debug-internals", "Turn on debugging info for the shell itself"),
        ("--version", "Print the restsh version and exit") ]) ]

/-- So many blanks. -/
def blanks (n : Nat) : String :=
  String.ofList (List.replicate n ' ')

/-- Puts parts into lines. `used` are the columns that the line at hand has used, `indent` those at
the beginning of the next ones. A part goes on a new line if it does not fit, unless it would be the
first of its line again. -/
def fillLines (width indent : Nat) : Nat → List String → List String → List String
  | _, [], [] => []
  | _, line, [] => [Text.joinWith " " line]
  | used, line, part :: rest =>
    if !line.isEmpty && used + part.length > width then
      Text.joinWith " " line :: fillLines width indent (indent + part.length + 1) [part] rest
    else fillLines width indent (used + part.length + 1) (line ++ [part]) rest

/-- The words of a text in lines of a given width. -/
def wrapText (width : Nat) (text : String) : List String :=
  fillLines width 0 0 [] (Text.cutText " " text)

/-- What stands before the summary. -/
def usageHead : String := "usage: "

/-- The summary: on one line if it fits, else the options and the positional arguments on lines of
their own, below each other. -/
def summary (width : Nat) : String :=
  let all := programName :: optionParts ++ positionalParts
  let whole := usageHead ++ Text.joinWith " " all
  if whole.length ≤ width then whole
  else
    let start := usageHead.length + programName.length
    if 4 * start ≤ 3 * width then
      let indent := start + 1
      let options := fillLines width indent usageHead.length [] (programName :: optionParts)
      let others := fillLines width indent indent [] positionalParts
      usageHead ++ Text.joinWith ("\n" ++ blanks indent) (options ++ others)
    else
      let indent := usageHead.length
      let together := fillLines width indent indent [] (optionParts ++ positionalParts)
      let lines :=
        if together.length > 1 then
          fillLines width indent indent [] optionParts ++
            fillLines width indent indent [] positionalParts
        else together
      usageHead ++ Text.joinWith ("\n" ++ blanks indent) (programName :: lines)

/-- An argument with what it does, which stands from column `column` on. -/
def entryLines (width column : Nat) (entry : String × String) : List String :=
  let head := "  " ++ entry.1
  if entry.2.isEmpty then [head]
  else
    let lines := wrapText (max (width - column) 11) entry.2
    if head.length + 2 ≤ column then
      match lines with
      | [] => [head]
      | first :: rest =>
        (head ++ blanks (column - head.length) ++ first) :: rest.map (blanks column ++ ·)
    else head :: lines.map (blanks column ++ ·)

/-- The help for a terminal with the given number of columns. -/
def usage (columns : Nat) : String :=
  let width := columns - 2
  let column := min 24 (max (width - 20) 4)
  let sections := entries.map fun s =>
    Text.joinWith "\n" (s.1 :: s.2.flatMap (entryLines width column))
  let about := Text.joinWith "\n" (wrapText (max width 11) "REST and RPC processing shell.")
  Text.joinWith "\n\n" (summary width :: about :: sections) ++ "\n"

end Parley.CommandLine
