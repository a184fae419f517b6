import DeployManifest.Yaml.Token.Block
import DeployManifest.Yaml.Token.Quoted
import DeployManifest.Yaml.Token.Tag
import DeployManifest.Yaml.Source

/-!
# From characters to tokens

The scanner turns a document into tokens, and indentation into marks that open and close blocks.

A key without an indicator shows itself only by the colon behind it.  So wherever such a key could
start, its position is remembered, and when the colon comes, the marks for the key are inserted
there.  A key has to fit on one line and into `maxKeySize` bytes.  One position is remembered for each
open flow collection and one for the block around them.

- `Scanner`: what is remembered between two tokens.
- `Scanner.saveKey?`, `Scanner.value?`: where a key could start, and the colon that completes it.
- `Scanner.openBlock`, `Scanner.closeBlocks`: from indentation to marks.
- `Scanner.token?`, `Scanner.run?`: one token, and all of them.
- `Source.tokens?`: the tokens of a document.
-/

namespace DeployManifest.Yaml

/-- A position at which a key may have started: how many tokens there were and where it is. -/
structure KeyStart where
  /-- Whether a key has to start here, because the text stands at the indentation of a mapping. -/
  required : Bool
  tokens : Nat
  index : Nat
  line : Nat
  column : Nat

/-- The scanner between two tokens. -/
structure Scanner where
  place : Place
  /-- The tokens so far, last one first. -/
  tokens : List Token
  count : Nat
  /-- Whether a key without an indicator may start here. -/
  keyAllowed : Bool
  /-- The key start remembered for the block around all flow collections. -/
  blockKey : Option KeyStart
  /-- Those of the open flow collections, innermost first. -/
  flowKeys : List (Option KeyStart)
  /-- The indentation of the innermost open block, -1 outside of all. -/
  indent : Int
  /-- The indentations of the blocks around it. -/
  outer : List Int

namespace Scanner

/-- The scanner in front of a document: no token yet, no block open, and a key may start. -/
def start (chars : List Char) : Scanner :=
  ⟨⟨chars, 0, 0, 0⟩, [], 0, true, none, [], -1, []⟩

/-- Whether a flow collection is open. -/
def inFlow (s : Scanner) : Bool := !s.flowKeys.isEmpty

/-- The key start of the innermost collection. -/
def keyStart? (s : Scanner) : Option KeyStart := s.flowKeys.headD s.blockKey

/-- Remembers the key start of the innermost collection, or that there is none. -/
def setKey (s : Scanner) (key? : Option KeyStart) : Scanner :=
  match s.flowKeys with
  | [] => { s with blockKey := key? }
  | _ :: outer => { s with flowKeys := key? :: outer }

/-- The scanner with one more token, at the same place. -/
def emit (s : Scanner) (token : Token) : Scanner :=
  { s with tokens := token :: s.tokens, count := s.count + 1 }

/-- Puts `token` behind the first `position` tokens. -/
def insertAt (s : Scanner) (position : Nat) (token : Token) : Scanner :=
  let later := s.count - position
  { s with tokens := s.tokens.take later ++ token :: s.tokens.drop later, count := s.count + 1 }

/-- Emits `token`, which is `length` characters long. -/
def take (s : Scanner) (token : Token) (length : Nat) : Scanner :=
  { s.emit token with place := s.place.advance length }

/-- How many bytes may lie between the start of a key and its colon. -/
def maxKeySize : Nat := 1024

/-- Whether a key that may have started at `key` can no longer be completed at `p`. -/
def isStale (p : Place) (key : KeyStart) : Bool :=
  key.line < p.line || key.index + maxKeySize < p.index

/-- Forgets a key start that is out of reach; a required one must not get there. -/
def refresh? (p : Place) : Option KeyStart → Option (Option KeyStart)
  | none => some none
  | some key => if isStale p key then (if key.required then none else some none) else some (some key)

/-- Forgets all key starts that are out of reach. -/
def refreshKeys? (s : Scanner) : Option Scanner := do
  let blockKey ← refresh? s.place s.blockKey
  let flowKeys ← s.flowKeys.mapM (refresh? s.place)
  return { s with blockKey, flowKeys }

/-- Forgets the innermost key start; a required one must not be given up. -/
def dropKey? (s : Scanner) : Option Scanner :=
  match s.keyStart? with
  | some key => if key.required then none else some (s.setKey none)
  | none => some s

/-- Remembers that a key may start here. -/
def saveKey? (s : Scanner) : Option Scanner :=
  if s.keyAllowed then
    let p := s.place
    let required := !s.inFlow && s.indent == p.column
    (s.dropKey?).map fun s => s.setKey (some ⟨required, s.count, p.index, p.line, p.column⟩)
  else some s

/-- Opens a block at `column` if it is deeper than the innermost one; its mark goes behind the
    first `position` tokens. -/
def openBlock (s : Scanner) (column position : Nat) (mark : Token) : Scanner :=
  if !s.inFlow && s.indent < column then
    { s.insertAt position mark with indent := column, outer := s.indent :: s.outer }
  else s

/-- The marks that close all blocks deeper than `column`, going from the innermost outwards. -/
def closeFrom (column : Int) (s : Scanner) : List Int → Scanner
  | [] => s
  | indent :: outer =>
    if column < s.indent then
      closeFrom column { s.emit .blockEnd with indent := indent, outer := outer } outer
    else s

/-- Closes the blocks deeper than `column`; inside of flow collections there are none. -/
def closeBlocks (s : Scanner) (column : Int) : Scanner :=
  if s.inFlow then s else closeFrom column s s.outer

/-- Skips blanks, comments, empty lines and byte order marks at the start of a line.  A tab counts as
    a blank only where it cannot be taken for indentation. -/
def skipFrom (s : Scanner) : Nat → Scanner
  | 0 => s
  | fuel + 1 =>
    let isSkipped := fun c => c == ' ' || ((s.inFlow || !s.keyAllowed) && c == '\t')
    let p := (s.place.skipMark.skipWhile isSkipped).skipComment
    match p.readBreak? with
    | some (_, next) =>
      skipFrom { s with place := next, keyAllowed := s.keyAllowed || !s.inFlow } fuel
    | none => { s with place := p }

/-- Skips everything in front of the next token. -/
def skipToToken (s : Scanner) : Scanner := s.skipFrom (s.place.rest.length + 1)

/-- A directive or a marker between documents: it closes all blocks. -/
def betweenDocuments? (s : Scanner) : Option Scanner :=
  ((s.closeBlocks (-1)).dropKey?).map fun s => { s with keyAllowed := false }

/-- The opening bracket of a flow collection, which may itself be a key. -/
def flowStart? (s : Scanner) (mark : Token) : Option Scanner :=
  s.saveKey?.map fun s =>
    { s.take mark 1 with keyAllowed := true, flowKeys := none :: s.flowKeys }

/-- The closing bracket of a flow collection. -/
def flowEnd? (s : Scanner) (mark : Token) : Option Scanner :=
  s.dropKey?.map fun s =>
    { s.take mark 1 with keyAllowed := false, flowKeys := s.flowKeys.drop 1 }

/-- A comma between the entries of a flow collection. -/
def flowEntry? (s : Scanner) : Option Scanner :=
  s.dropKey?.map fun s => { s.take .flowEntry 1 with keyAllowed := true }

/-- Opens a block for an indicator at the current column, which has to stand where a key could. -/
def openHere? (s : Scanner) (mark : Token) : Option Scanner :=
  if s.inFlow then some s
  else if s.keyAllowed then some (s.openBlock s.place.column s.count mark)
  else none

/-- The dash in front of an item of a block sequence. -/
def blockEntry? (s : Scanner) : Option Scanner := do
  let s ← s.openHere? .blockSequenceStart
  let s ← s.dropKey?
  return { s.take .blockEntry 1 with keyAllowed := true }

/-- The question mark in front of a key that is announced. -/
def explicitKey? (s : Scanner) : Option Scanner := do
  let s ← s.openHere? .blockMappingStart
  let s ← s.dropKey?
  return { s.take .key 1 with keyAllowed := !s.inFlow }

/-- A colon: it completes the key that was remembered, or is the value of an explicit key. -/
def value? (s : Scanner) : Option Scanner :=
  match s.keyStart? with
  | some key =>
    let s := (s.setKey none).insertAt key.tokens .key
    let s := s.openBlock key.column key.tokens .blockMappingStart
    some { s.take .value 1 with keyAllowed := false }
  | none => do
    let s ← s.openHere? .blockMappingStart
    return { s.take .value 1 with keyAllowed := !s.inFlow }

/-- A token that may start a key, read by `read`. -/
def keyLike? (s : Scanner) (read : Place → Option (Token × Place)) : Option Scanner := do
  let s ← s.saveKey?
  let (token, next) ← read s.place
  return { s.emit token with place := next, keyAllowed := false }

/-- An anchor or an alias, whose name is read in the same way. -/
def anchor? (s : Scanner) (token : String → Token) : Option Scanner :=
  s.keyLike? fun p => (readAnchor? p).map fun (name, next) => (token name, next)

/-- A tag, which has to end at a gap. -/
def tag? (s : Scanner) : Option Scanner :=
  s.keyLike? fun p => do
    let (token, next) ← readTag? p
    guard (atGap next.rest || (s.inFlow && next.rest.head? == some ','))
    return (token, next)

/-- A scalar in quotes. -/
def quoted? (s : Scanner) (single : Bool) : Option Scanner :=
  let style := if single then Style.singleQuoted else .doubleQuoted
  s.keyLike? fun p => (readQuoted? single p).map fun (text, next) =>
    (.scalar style (String.ofList text), next)

/-- A block scalar, which cannot be a key without an indicator. -/
def block? (s : Scanner) (literal : Bool) : Option Scanner := do
  let style := if literal then Style.literal else .folded
  let s ← s.dropKey?
  let (text, next) ← readBlock? literal s.indent s.place
  return { s.emit (.scalar style (String.ofList text)) with place := next, keyAllowed := true }

/-- A scalar without quotes, deeper than the innermost block. -/
def plain? (s : Scanner) : Option Scanner := do
  let s ← s.saveKey?
  let read ← readPlain? s.inFlow (s.indent + 1) s.place
  return { s.emit (.scalar .plain (String.ofList read.text)) with
    place := read.place, keyAllowed := read.broken }

/-- Whether a plain scalar may start with `c`, which is not the start of any other token. -/
def startsPlain (inFlow : Bool) (c : Char) (rest : List Char) : Bool :=
  !("-?:,[]\x7b\x7d#&*!|>\x27\x22%@\x60".toList.contains c || isBlank c || isBreak c) ||
    (c == '-' && !rest.head?.any isBlank) ||
    (!inFlow && (c == '?' || c == ':') && !atGap rest)

/-- Reads the token that starts at the current place. -/
def token? (s : Scanner) (c : Char) (rest : List Char) : Option Scanner :=
  let p := s.place
  if p.column = 0 && c = '%' then
    s.betweenDocuments?.bind fun s => (readDirective? s.place).map fun (token, next) =>
      { s.emit token with place := next }
  else if p.column = 0 && atDocumentMarker p.rest then
    s.betweenDocuments?.map fun s =>
      s.take (if c = '-' then .documentStart else .documentEnd) 3
  else match c with
    | '[' => s.flowStart? .flowSequenceStart
    | '\x7b' => s.flowStart? .flowMappingStart
    | ']' => s.flowEnd? .flowSequenceEnd
    | '\x7d' => s.flowEnd? .flowMappingEnd
    | ',' => s.flowEntry?
    | '*' => s.anchor? .alias
    | '&' => s.anchor? .anchor
    | '!' => s.tag?
    | '\'' => s.quoted? true
    | '"' => s.quoted? false
    | _ =>
      if c = '-' && atGap rest then s.blockEntry?
      else if c = '?' && (s.inFlow || atGap rest) then s.explicitKey?
      else if c = ':' && (s.inFlow || atGap rest) then s.value?
      else if c = '|' && !s.inFlow then s.block? true
      else if c = '>' && !s.inFlow then s.block? false
      else if startsPlain s.inFlow c rest then s.plain?
      else none

/-- All tokens from here on. -/
def run? : Nat → Scanner → Option (List Token)
  | 0, _ => none
  | fuel + 1, s =>
    (s.skipToToken.refreshKeys?).bind fun s =>
      let s := s.closeBlocks s.place.column
      match s.place.rest with
      | [] => ((s.closeBlocks (-1)).dropKey?).map fun s => s.tokens.reverse
      | c :: rest => (s.token? c rest).bind (run? fuel)

end Scanner

/-- The tokens of a document, if its characters are allowed and make up tokens. -/
def Source.tokens? (source : Source) : Option (List Token) :=
  source.chars?.bind fun chars =>
    if chars.all isAllowed then (Scanner.start chars).run? (chars.length + 1) else none

end DeployManifest.Yaml
