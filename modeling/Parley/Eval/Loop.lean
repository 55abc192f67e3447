import Parley.Eval.Task
import Parley.Grammar.Reading
import Parley.Token.Lexer

/-!
# The loop of a session

Lines are read and cut into tokens. As long as the tokens are the beginning of a statement, the next
line is added to them; a finished statement is evaluated, and its value becomes the last result. A
statement that fails ends nothing but itself, except in strict mode, where a failure of the shell
itself ends the loop.

At the end of the input a statement that has been begun is given up; the end of the input after that
ends the loop.
-/

namespace Parley.Act

/-- What reading a line has come to. -/
inductive Reading where
  | tokens (all : List Token)
  /-- The line is no list of tokens. -/
  | refused (message : String)
  | interrupted
  | atEnd

/-- Writes the prompt: one for a new statement, one for a statement that has been begun. -/
def writePrompt (scope : Nat) (pending : List Token) : Act Unit := do
  let name := if pending.isEmpty then "*prompt" else "*continue"
  write (← pasted (← lookupValue scope name))

/-- The text of a line without the line feed at its end. -/
def withoutLineFeed (s : String) : String :=
  match s.toList.reverse with
  | '\n' :: rest => String.ofList rest.reverse
  | _ => s

/-- Reads one line and adds its tokens to the pending ones. Only the standard input has a prompt. -/
def readTokens (scope : Nat) (pending : List Token) : Act Reading := do
  let stream := (← scopeAt scope).input
  if stream = 0 then writePrompt scope pending
  match ← readLine stream with
  | .atEnd => return .atEnd
  | .interrupted => return .interrupted
  | .text line =>
    match Token.scan (if stream = 0 then withoutLineFeed line else line) with
    | .ok tokens => return .tokens (pending ++ tokens)
    | .error f => return .refused f.message

/-- Prints a complaint in red. -/
def complain (message : String) : Act Unit := do
  foreground "red"
  print message
  reset

/-- The names of the parts that were looked for, each once, in order. -/
def expectedNames (parts : List Grammar.Part) : List String :=
  ((parts.map Grammar.Part.label).eraseDups).mergeSort fun a b => decide (a ≤ b)

/-- Is a value shown after its statement? It is if the session is typed in and written out on a
terminal, and the statement is worth it. -/
def showsResult (scope : Nat) (e : Expr) : Act Bool := do
  let w ← get
  return (← scopeAt scope).input < w.ownStreams && w.console.terminal && e.printable

/-- The colour for results. -/
def resultColour (scope : Nat) : Act String := do
  match ← lookupValue scope "*resultcolor" with
  | .setting s => return s
  | v => throw (.attributeName v.label)

/-- Shows the value of a statement, if it is to be shown. -/
def showResult (scope : Nat) (e : Expr) (a : Answer) : Act Unit := do
  if ← showsResult scope e then
    foreground (← resultColour scope)
    print (← shown (← deref a))
    reset

/-- Evaluates a statement, shows its value and makes it the last result. -/
def runStatement (run : Run) (scope : Nat) (e : Expr) : Act Unit := do
  let text ← ofTraced e.shown
  title (String.ofList (text.toList.take 30))
  let a ← run (.evaluate scope e)
  showResult scope e a
  let _ ← assign scope World.resultName (← deref a)

/-- What comes of the failure of a statement. -/
def afterFailure (scope : Nat) : Fault → Act Unit
  | .evaluation _ => do
    if (← scopeAt scope).strict then
      foreground "red"
      reset
  | f => do
    complain ("INTERNAL INTERPRETER ERROR: " ++ f.message)
    if (← scopeAt scope).strict then throw f

/-- Evaluates a statement whatever comes of it. -/
def tryStatement (run : Run) (scope : Nat) (e : Expr) : Act Unit :=
  tryCatch (runStatement run scope e) (afterFailure scope)

/-- The tokens of a new statement, if there are any: parses and evaluates them. The tokens that are
left are those of a statement that has only begun. -/
def takeTokens (run : Run) (scope : Nat) (pending tokens : List Token) : Act (List Token) := do
  let parsed := Grammar.parse tokens
  traceAll parsed.notes
  match parsed.result with
  | .ok e =>
    let e ← withStore fun s =>
      let (e, fresh) := e.placed s.fresh
      ({ s with fresh }, e)
    tryStatement run scope e
    return []
  | .error (.unfinished _) => return tokens
  | .error (.rejected _ expected false) =>
    complain ("parse error, expected one of: " ++ Text.joinWith ", " (expectedNames expected))
    return []
  | .error (.rejected _ _ true) | .error (.ended _) =>
    if pending = tokens then
      complain "parse error"
      return []
    else return tokens
  | .error (.fault f) => throw f
  | .error .spent => throw .nestedTooDeeply

/-- What a round does with what has been read. -/
def dealWith (run : Run) (scope : Nat) (pending : List Token) : Reading → Act (List Token)
  | .interrupted => do
    print ""
    return []
  | .atEnd => do
    if pending.isEmpty then modifyScope scope fun sc => { sc with looping := false }
    else print ""
    return []
  | .refused message => do
    print message
    return []
  | .tokens tokens => do
    trace ("tokenized: [" ++ Text.joinWith ", " (tokens.map Token.shown) ++ "]")
    if tokens.isEmpty then return [] else takeTokens run scope pending tokens

/-- One round of the loop: what is pending before and after it. -/
def readRound (run : Run) (scope : Nat) (pending : List Token) : Act (List Token) := do
  title "restsh"
  dealWith run scope pending (← readTokens scope pending)

/-- Goes through rounds until the loop is stopped. -/
def loopWith (round : List Token → Act (List Token)) (scope : Nat) : Nat → List Token → Act Unit
  | 0, _ => throw .nestedTooDeeply
  | rounds + 1, pending => do
    if (← scopeAt scope).looping then
      let pending ← round pending
      loopWith round scope rounds pending

/-- Reads and evaluates statements until the loop is stopped. -/
def readStatements (run : Run) (scope : Nat) : Nat → List Token → Act Unit :=
  loopWith (readRound run scope) scope

end Parley.Act
