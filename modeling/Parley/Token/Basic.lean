/-!
# Tokens

The words of the shell's language. A token is its kind and the text it was read from.
-/

namespace Parley

/-- The kinds of tokens. -/
inductive Token.Kind where
  | eq
  | dot
  | leftParen
  | rightParen
  | leftBrace
  | rightBrace
  | leftBracket
  | rightBracket
  | comma
  | colon
  | semicolon
  | bang
  | backslash
  | letWord
  | importWord
  | helpWord
  | exitWord
  | tryWord
  | ifWord
  | thenWord
  | elseWord
  | name
  | operator
  | text
  | decimal
  | integer
  deriving DecidableEq, Repr

/-- A token: its kind and the text it was read from. -/
structure Token where
  kind : Token.Kind
  text : String
  deriving DecidableEq, Repr

namespace Token.Kind

/-- The name of a kind in messages. -/
def label : Token.Kind → String
  | eq => "Eq"
  | dot => "Dot"
  | leftParen => "LParen"
  | rightParen => "RParen"
  | leftBrace => "LBrace"
  | rightBrace => "RBrace"
  | leftBracket => "LBracket"
  | rightBracket => "RBracket"
  | comma => "Comma"
  | colon => "Colon"
  | semicolon => "SemiColon"
  | bang => "Bang"
  | backslash => "BSlash"
  | letWord => "Let"
  | importWord => "Imp"
  | helpWord => "Help"
  | exitWord => "Ext"
  | tryWord => "Try"
  | ifWord => "If"
  | thenWord => "Then"
  | elseWord => "Else"
  | name => "Sym"
  | operator => "Op"
  | text => "Str"
  | decimal => "Flt"
  | integer => "Int"

/-- After a token of such a kind inside a rule the statement is expected to go on: input that ends
there is unfinished, not wrong. -/
def opens : Token.Kind → Bool
  | helpWord | name | text | decimal | integer => false
  | _ => true

end Token.Kind

/-- A token as the tracing of the shell shows it. -/
def Token.shown (t : Token) : String :=
  t.kind.label ++ "(" ++ t.text ++ ")"

end Parley
