import Parley.Fault
import Parley.Text.Blank
import Parley.Text.Word
import Parley.Token.Basic

/-!
# From text to tokens

At each place the first rule that fits gives the token: the equals sign that assigns, the
punctuation marks, the keywords, names, operators, texts, decimals and integers. Blanks between
tokens are skipped, and `#` ends the line.

A rule answers with the number of characters that the token has *beyond its first*, so that no
token is empty and the scan of a text ends.
-/

namespace Parley.Token

open Parley.Text

/-- The characters that operators are made of. -/
def operatorChars : List Char :=
  "-+*/|&^$@?~=<>".toList

/-- May this character stand in an operator? -/
def isOperatorChar (c : Char) : Bool :=
  operatorChars.contains c

/-- The punctuation marks. -/
def mark? : Char → Option Kind
  | '.' => some .dot
  | '(' => some .leftParen
  | ')' => some .rightParen
  | '\x7b' => some .leftBrace
  | '\x7d' => some .rightBrace
  | '[' => some .leftBracket
  | ']' => some .rightBracket
  | ',' => some .comma
  | ':' => some .colon
  | ';' => some .semicolon
  | '!' => some .bang
  | '\\' => some .backslash
  | _ => none

/-- The keywords. -/
def keywords : List (List Char × Kind) :=
  [ ("let".toList, .letWord), ("import".toList, .importWord), ("help".toList, .helpWord),
    ("exit".toList, .exitWord), ("try".toList, .tryWord), ("if".toList, .ifWord),
    ("then".toList, .thenWord), ("else".toList, .elseWord) ]

/-- Does the text begin with no word character? -/
def endsWord : List Char → Bool
  | [] => true
  | c :: _ => !isWord c

/-- The keyword that the text begins with: it ends where no word character follows. -/
def keyword? (cs : List Char) : List (List Char × Kind) → Option (Kind × Nat)
  | [] => none
  | (w, k) :: rest =>
    if w.isPrefixOf cs && endsWord (cs.drop w.length) then some (k, w.length - 1)
    else keyword? cs rest

/-- An equals sign assigns when a blank, a word character or nothing follows. -/
def assigns : List Char → Bool
  | [] => true
  | c :: _ => isWord c || isBlank c

/-- The number of characters before the quote that ends a text. A quote after a backslash ends
the text only if no later quote can. -/
def closingQuote? : List Char → Option Nat
  | [] => none
  | '"' :: _ => some 0
  | '\\' :: '"' :: rest =>
    match closingQuote? rest with
    | some n => some (n + 2)
    | none => some 1
  | _ :: rest => (closingQuote? rest).map (· + 1)

/-- A number that begins with a digit: the digits after the first, and a fraction if a point with
a digit follows. -/
def numberLexeme (rest : List Char) : Kind × Nat :=
  let whole := rest.takeWhile Char.isDigit
  match rest.dropWhile Char.isDigit with
  | '.' :: after =>
    match after.takeWhile Char.isDigit with
    | [] => (.integer, whole.length)
    | fraction => (.decimal, whole.length + 1 + fraction.length)
  | _ => (.integer, whole.length)

/-- The kind of the token that `c :: rest` begins with, and the number of its characters beyond
the first. -/
def lexeme? (c : Char) (rest : List Char) : Option (Kind × Nat) :=
  if c == '=' && assigns rest then some (.eq, 0)
  else
    match mark? c with
    | some k => some (k, 0)
    | none =>
      match keyword? (c :: rest) keywords with
      | some r => some r
      | none =>
        if isNameStart c then some (.name, (rest.takeWhile isNamePart).length)
        else if isOperatorChar c then
          some (.operator, (rest.takeWhile isOperatorChar).length)
        else if c == '"' then (closingQuote? rest).map fun n => (.text, n + 1)
        else if c.isDigit then some (numberLexeme rest)
        else none

/-- The tokens of a text that does not begin with a blank. -/
def scanFrom (cs : List Char) : Except Fault (List Token) :=
  match cs with
  | [] => .ok []
  | c :: rest =>
    if c == '#' then .ok []
    else
      match lexeme? c rest with
      | none => .error (.unrecognized (String.ofList ((c :: rest).take 20)))
      | some (kind, more) =>
        match scanFrom (skipBlanks (rest.drop more)) with
        | .ok ts => .ok (⟨kind, String.ofList (c :: rest.take more)⟩ :: ts)
        | .error f => .error f
termination_by cs.length
decreasing_by
  have h := length_skipBlanks_le (rest.drop more)
  simp only [List.length_drop, List.length_cons] at *
  omega

/-- The tokens of a text. -/
def scan (s : String) : Except Fault (List Token) :=
  scanFrom (skipBlanks s.toList)

end Parley.Token
