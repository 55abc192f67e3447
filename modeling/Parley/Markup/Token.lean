import Parley.Markup.Mark

/-!
# Tokens of a document

The pieces that a document is made of. Indentation shows up as tokens of its own: a block of entries
has a token where it begins and one where it ends.

This is a part of what stands in for the reader of documents (`Parley.Markup.Reading`).
-/

namespace Parley.Markup

/-- A piece of a document. -/
inductive Piece where
  | streamEnd
  | directive (name : String)
  | documentStart
  | documentEnd
  | blockSequenceStart
  | blockMappingStart
  | blockEnd
  | flowSequenceStart
  | flowMappingStart
  | flowSequenceEnd
  | flowMappingEnd
  | key
  | value
  | blockEntry
  | flowEntry
  | alias (name : String)
  | anchor (name : String)
  | tag (handle suffix : String)
  | scalar (text : String) (plain : Bool)
  deriving DecidableEq, Repr

/-- The words for a piece in messages. -/
def Piece.label : Piece → String
  | .streamEnd => "<stream end>"
  | .directive _ => "<directive>"
  | .documentStart => "<document start>"
  | .documentEnd => "<document end>"
  | .blockSequenceStart => "<block sequence start>"
  | .blockMappingStart => "<block mapping start>"
  | .blockEnd => "<block end>"
  | .flowSequenceStart => "["
  | .flowMappingStart => "\x7b"
  | .flowSequenceEnd => "]"
  | .flowMappingEnd => "\x7d"
  | .key => "?"
  | .value => ":"
  | .blockEntry => "-"
  | .flowEntry => ","
  | .alias _ => "<alias>"
  | .anchor _ => "<anchor>"
  | .tag _ _ => "<tag>"
  | .scalar _ _ => "<scalar>"

/-- A piece with the place where it begins. -/
structure Lexeme where
  piece : Piece
  start : Mark

end Parley.Markup
