import Parley.Markup.Lexer

/-!
# The tree of a document

Tokens are put together to nodes: scalars, sequences and mappings, each with its place and, if it
has one, its tag. A node can be given a name, an anchor, and be used again under that name.

This is a part of what stands in for the reader of documents (`Parley.Markup.Reading`).
-/

namespace Parley.Markup

/-- A node of a document. -/
inductive Node where
  | scalar (text : String) (plain : Bool) (tag : Option String) (start : Mark)
  | sequence (items : List Node) (tag : Option String) (start : Mark)
  | mapping (entries : List (Node × Node)) (tag : Option String) (start : Mark)

instance : Inhabited Node := ⟨.scalar "" true none ⟨0, 0, 0⟩⟩

/-- The state of reading. -/
structure Reading where
  source : Source
  tokens : List Lexeme
  /-- What stopped the tokens, if it was not the end of the document. -/
  broken : Option Problem
  anchors : List (String × Node)

/-- The monad of reading. -/
abbrev Read := StateT Reading (Except Problem)

/-- The next token. -/
def peekToken : Read Lexeme := do
  let r ← get
  match r.tokens, r.broken with
  | t :: _, _ => return t
  | [], some p => throw p
  | [], none => return ⟨.streamEnd, ⟨0, 0, 0⟩⟩

/-- Takes the next token. -/
def takeToken : Read Lexeme := do
  let t ← peekToken
  modify fun r => { r with tokens := r.tokens.drop 1 }
  return t

/-- Is the next token one of these? -/
def nextIs (pieces : List Piece) : Read Bool := do
  return pieces.contains (← peekToken).piece

/-- Fails. -/
def readError {α : Type} (context : Option (String × Option Mark)) (what : String)
    (place : Mark) : Read α := do
  throw (problem (← get).source "ParserError" context what place)

/-- A node without text. -/
def emptyNode (start : Mark) : Node :=
  .scalar "" true none start

/-- The full form of a tag. -/
def resolveTag (start : Mark) (t : Lexeme) (handle suffix : String) : Read String := do
  match handle with
  | "" => return suffix
  | "!" => return "!" ++ suffix
  | "!!" => return "tag:yaml.org,2002:" ++ suffix
  | h =>
    readError (some ("while parsing a node", some start))
      ("found undefined tag handle " ++ Text.quoted h) t.start

/-- Reads the anchor and the tag before a node. -/
def readProperties (start : Mark) : Nat → Option String → Option String →
    Read (Option String × Option String)
  | 0, anchor, tag => return (anchor, tag)
  | fuel + 1, anchor, tag => do
    let t ← peekToken
    match t.piece, anchor, tag with
    | .anchor name, none, tag =>
      let _ ← takeToken
      readProperties start fuel (some name) tag
    | .tag handle suffix, anchor, none =>
      let _ ← takeToken
      let full ← resolveTag start t handle suffix
      readProperties start fuel anchor (some full)
    | _, anchor, tag => return (anchor, tag)

mutual

/-- Reads a node: in a block or between brackets, and perhaps a sequence without indentation. -/
def readNode : Nat → Bool → Bool → Read Node
  | 0, _, _ => return emptyNode ⟨0, 0, 0⟩
  | fuel + 1, block, indentless => do
    let first ← peekToken
    match first.piece with
    | .alias name =>
      let _ ← takeToken
      match (← get).anchors.lookup name with
      | some node => return node
      | none =>
        throw (problem (← get).source "ComposerError" none
          ("found undefined alias " ++ Text.quoted name) first.start)
    | _ =>
      let start := first.start
      let (anchor, tag) ← readProperties start 2 none none
      let t ← peekToken
      let node ←
        match t.piece with
        | .blockEntry =>
          if indentless then do
            let items ← readIndentless fuel
            pure (Node.sequence items tag start)
          else readMissing block start anchor tag t
        | .scalar text plain => do
          let _ ← takeToken
          pure (Node.scalar text plain tag start)
        | .flowSequenceStart => do
          let _ ← takeToken
          let items ← readFlowItems fuel t.start true
          pure (Node.sequence items tag start)
        | .flowMappingStart => do
          let _ ← takeToken
          let entries ← readFlowEntries fuel t.start true
          pure (Node.mapping entries tag start)
        | .blockSequenceStart =>
          if block then do
            let _ ← takeToken
            let items ← readBlockItems fuel t.start
            pure (Node.sequence items tag start)
          else readMissing block start anchor tag t
        | .blockMappingStart =>
          if block then do
            let _ ← takeToken
            let entries ← readBlockEntries fuel t.start
            pure (Node.mapping entries tag start)
          else readMissing block start anchor tag t
        | _ => readMissing block start anchor tag t
      match anchor with
      | some name =>
        modify fun r => { r with anchors := (name, node) :: r.anchors }
        return node
      | none => return node

/-- A node whose content is missing: empty if it has an anchor or a tag, and an error otherwise. -/
def readMissing (block : Bool) (start : Mark) (anchor tag : Option String) (t : Lexeme) :
    Read Node := do
  if anchor.isSome || tag.isSome then return .scalar "" true tag start
  else
    let kind := if block then "block" else "flow"
    readError (some (s!"while parsing a {kind} node", some start))
      ("expected the node content, but found " ++ Text.quoted t.piece.label) t.start

/-- Reads the entries of a sequence that is not indented. -/
def readIndentless : Nat → Read (List Node)
  | 0 => return []
  | fuel + 1 => do
    if ← nextIs [.blockEntry] then
      let t ← takeToken
      let item ←
        if ← nextIs [.blockEntry, .key, .value, .blockEnd] then pure (emptyNode t.start)
        else readNode fuel true false
      return item :: (← readIndentless fuel)
    else return []

/-- Reads the entries of a sequence in a block. -/
def readBlockItems : Nat → Mark → Read (List Node)
  | 0, _ => return []
  | fuel + 1, start => do
    let t ← takeToken
    match t.piece with
    | .blockEntry =>
      let item ←
        if ← nextIs [.blockEntry, .blockEnd] then pure (emptyNode t.start)
        else readNode fuel true false
      return item :: (← readBlockItems fuel start)
    | .blockEnd => return []
    | p =>
      readError (some ("while parsing a block collection", some start))
        ("expected <block end>, but found " ++ Text.quoted p.label) t.start

/-- Reads the entries of a mapping in a block. -/
def readBlockEntries : Nat → Mark → Read (List (Node × Node))
  | 0, _ => return []
  | fuel + 1, start => do
    let t ← peekToken
    match t.piece with
    | .key =>
      let _ ← takeToken
      let key ←
        if ← nextIs [.key, .value, .blockEnd] then pure (emptyNode t.start)
        else readNode fuel true true
      let value ← readBlockValue fuel
      return (key, value) :: (← readBlockEntries fuel start)
    | .value =>
      let value ← readBlockValue fuel
      return (emptyNode t.start, value) :: (← readBlockEntries fuel start)
    | .blockEnd =>
      let _ ← takeToken
      return []
    | p =>
      readError (some ("while parsing a block mapping", some start))
        ("expected <block end>, but found " ++ Text.quoted p.label) t.start

/-- Reads the value of an entry in a block. -/
def readBlockValue : Nat → Read Node
  | 0 => return emptyNode ⟨0, 0, 0⟩
  | fuel + 1 => do
    let t ← peekToken
    match t.piece with
    | .value =>
      let _ ← takeToken
      if ← nextIs [.key, .value, .blockEnd] then return emptyNode t.start
      else readNode fuel true true
    | _ => return emptyNode t.start

/-- Reads the entries of a sequence between brackets. -/
def readFlowItems : Nat → Mark → Bool → Read (List Node)
  | 0, _, _ => return []
  | fuel + 1, start, first => do
    if ← nextIs [.flowSequenceEnd] then
      let _ ← takeToken
      return []
    else
      if !first then
        let t ← peekToken
        if t.piece == .flowEntry then
          let _ ← takeToken
        else
          readError (some ("while parsing a flow sequence", some start))
            ("expected ',' or ']', but got " ++ Text.quoted t.piece.label) t.start
      let t ← peekToken
      match t.piece with
      | .key =>
        let _ ← takeToken
        let key ←
          if ← nextIs [.value, .flowEntry, .flowSequenceEnd] then pure (emptyNode t.start)
          else readNode fuel false false
        let value ← readFlowValue fuel [.flowEntry, .flowSequenceEnd]
        return .mapping [(key, value)] none t.start :: (← readFlowItems fuel start false)
      | .flowSequenceEnd => readFlowItems fuel start false
      | _ =>
        let item ← readNode fuel false false
        return item :: (← readFlowItems fuel start false)

/-- Reads the entries of a mapping between braces. -/
def readFlowEntries : Nat → Mark → Bool → Read (List (Node × Node))
  | 0, _, _ => return []
  | fuel + 1, start, first => do
    if ← nextIs [.flowMappingEnd] then
      let _ ← takeToken
      return []
    else
      if !first then
        let t ← peekToken
        if t.piece == .flowEntry then
          let _ ← takeToken
        else
          readError (some ("while parsing a flow mapping", some start))
            ("expected ',' or '\x7d', but got " ++ Text.quoted t.piece.label) t.start
      let t ← peekToken
      match t.piece with
      | .key =>
        let _ ← takeToken
        let key ←
          if ← nextIs [.value, .flowEntry, .flowMappingEnd] then pure (emptyNode t.start)
          else readNode fuel false false
        let value ← readFlowValue fuel [.flowEntry, .flowMappingEnd]
        return (key, value) :: (← readFlowEntries fuel start false)
      | .flowMappingEnd => readFlowEntries fuel start false
      | _ =>
        let key ← readNode fuel false false
        let after ← peekToken
        return (key, emptyNode after.start) :: (← readFlowEntries fuel start false)

/-- Reads the value of an entry between brackets or braces; `ends` are the tokens that follow an
empty one. -/
def readFlowValue : Nat → List Piece → Read Node
  | 0, _ => return emptyNode ⟨0, 0, 0⟩
  | fuel + 1, ends => do
    let t ← peekToken
    match t.piece with
    | .value =>
      let _ ← takeToken
      if ← nextIs ends then return emptyNode t.start
      else readNode fuel false false
    | _ => return emptyNode t.start

end

/-- Takes the tokens that end documents. -/
def skipDocumentEnds : Nat → Read Unit
  | 0 => return
  | fuel + 1 => do
    if ← nextIs [.documentEnd] then
      let _ ← takeToken
      skipDocumentEnds fuel

/-- Takes directives. -/
def skipDirectives : Nat → Read Unit
  | 0 => return
  | fuel + 1 => do
    match (← peekToken).piece with
    | .directive _ =>
      let _ ← takeToken
      skipDirectives fuel
    | _ => return

/-- Reads the beginning of a document: is there one that begins explicitly, and is there one at
all? -/
def beginDocument (fuel : Nat) : Read (Option Bool) := do
  match (← peekToken).piece with
  | .streamEnd => return none
  | .documentStart | .directive _ | .documentEnd =>
    skipDocumentEnds fuel
    if ← nextIs [.streamEnd] then return none
    skipDirectives fuel
    let t ← takeToken
    if t.piece == .documentStart then return some true
    else
      readError none
        ("expected '<document start>', but found " ++ Text.quoted t.piece.label) t.start
  | _ => return some false

/-- Reads the content of a document, which can be empty. -/
def readDocument (fuel : Nat) : Read Node := do
  let t ← peekToken
  match t.piece with
  | .directive _ | .documentStart | .documentEnd | .streamEnd => return emptyNode t.start
  | _ => readNode fuel true false

/-- The node of a stream with at most one document. -/
def readStream (fuel : Nat) : Read (Option Node) := do
  match ← beginDocument fuel with
  | none => return none
  | some _ =>
    let start := (← peekToken).start
    let node ← readDocument fuel
    let explicitEnd ← nextIs [.documentEnd]
    skipDocumentEnds fuel
    let t ← peekToken
    match t.piece, explicitEnd with
    | .streamEnd, _ => return some node
    | .documentStart, _ | .directive _, _ =>
      throw (problem (← get).source "ComposerError"
        (some ("expected a single document in the stream", some start))
        "but found another document" t.start)
    | p, true =>
      readError none ("expected '<document start>', but found " ++ Text.quoted p.label) t.start
    | p, false =>
      readError none ("expected '<document start>', but found " ++ Text.quoted p.label) t.start

/-- The node of a document; `none` for an empty one. -/
def compose (source : Source) : Except Problem (Option Node) := do
  let (tokens, broken) := lexAll source
  let (node, _) ← (readStream (4 * tokens.size + 10)).run
    { source, tokens := tokens.toList, broken, anchors := [] }
  .ok node

end Parley.Markup
