/-!
# Places in a document

A place is what is left to read, together with the line and column it starts at: indentation gives
a document its structure.  Besides the usual three line breaks there are three more: next line,
line separator and paragraph separator.

Some writers put a byte order mark in front of a text.  A mark at the start of a line counts as a
character of that line, so what follows it stands in the second column.

- `Place`: the characters left, and where the first of them stands.
- `Place.advance`: the place some characters further on, in the same line.
- `Place.readBreak?`: a line break and the place behind it.
- `atGap`, `atLineEnd`: whether nothing stands here that belongs to a token.
-/

namespace DeployManifest.Yaml

/-- The characters that end a line. -/
def isBreak (c : Char) : Bool :=
  c == '\r' || c == '\n' || c.toNat == 0x85 || c.toNat == 0x2028 || c.toNat == 0x2029

/-- The characters that may stand between tokens of a line. -/
def isBlank (c : Char) : Bool := c == ' ' || c == '\t'

/-- The mark that may stand in front of a text. -/
def isByteOrderMark (c : Char) : Bool := c.toNat == 0xFEFF

/-- The characters of anchor names and directive names. -/
def isNameChar (c : Char) : Bool := c.isAlphanum || c == '_' || c == '-'

/-- Whether the text ends here or goes on with a blank or a line break. -/
def atGap : List Char → Bool
  | [] => true
  | c :: _ => isBlank c || isBreak c

/-- Whether the text ends here or goes on with a line break. -/
def atLineEnd : List Char → Bool
  | [] => true
  | c :: _ => isBreak c

/-- Whether a marker between documents, three dashes or three dots, stands here. -/
def atDocumentMarker : List Char → Bool
  | '-' :: '-' :: '-' :: rest => atGap rest
  | '.' :: '.' :: '.' :: rest => atGap rest
  | _ => false

/-- A place in a document.  `index` counts bytes from the start, `column` characters from the start
    of the line. -/
structure Place where
  rest : List Char
  index : Nat
  line : Nat
  column : Nat

namespace Place

/-- The place `n` characters further on the same line. -/
def advance (p : Place) (n : Nat) : Place :=
  let passed := String.ofList (p.rest.take n)
  ⟨p.rest.drop n, p.index + passed.utf8ByteSize, p.line, p.column + n⟩

/-- The place behind the characters that satisfy `ok`, on the same line. -/
def skipWhile (p : Place) (ok : Char → Bool) : Place :=
  p.advance (p.rest.takeWhile ok).length

/-- The line break that stands here and the place behind it, the start of the next line.  All
    breaks count as a line feed, except for the two separators. -/
def readBreak? (p : Place) : Option (Char × Place) :=
  match p.rest with
  | '\r' :: '\n' :: rest => some ('\n', ⟨rest, p.index + 2, p.line + 1, 0⟩)
  | c :: rest =>
    if isBreak c then
      let kept := if c.toNat = 0x2028 || c.toNat = 0x2029 then c else '\n'
      some (kept, ⟨rest, p.index + c.utf8Size, p.line + 1, 0⟩)
    else none
  | [] => none

/-- The place behind the line break that stands here, if one does. -/
def skipBreak (p : Place) : Place :=
  match p.readBreak? with
  | some (_, next) => next
  | none => p

/-- The place behind the comment that stands here, if one does. -/
def skipComment (p : Place) : Place :=
  match p.rest with
  | '#' :: _ => p.skipWhile fun c => !isBreak c
  | _ => p

/-- The place behind the byte order mark that stands here, if one does and a line starts with it. -/
def skipMark (p : Place) : Place :=
  match p.rest with
  | c :: _ => if p.column = 0 && isByteOrderMark c then p.advance 1 else p
  | [] => p

/-- The place behind the blanks, the comment and the line break that may stand here; `none` if
    anything else comes first. -/
def finishLine? (p : Place) : Option Place :=
  let p := (p.skipWhile isBlank).skipComment
  if atLineEnd p.rest then some p.skipBreak else none

end Place
end DeployManifest.Yaml
