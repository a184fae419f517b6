import DeployManifest.Yaml.Scalar
import DeployManifest.Yaml.Token
import DeployManifest.Yaml.Token.Place

/-!
# How scalars are written

A string is written so that it reads back as a string:

- with a line feed inside, as a literal block;
- in single quotes if it would read as a number, a boolean or null, or has needless zeros;
- plain otherwise.

Not every string can be written in every style.  Where the wanted style is impossible, plain gives
way to single quotes, and single quotes and literal blocks give way to double quotes, in which every
string can be written.

`writtenStyle` decides; `scalarLines` writes.
-/

namespace DeployManifest.Yaml

/-- What a scalar has to fit into: a key on one line or any other place. -/
inductive Room where
  | oneLine
  | anyLines
  deriving DecidableEq

/-- Whether a character can be written as it is. -/
def isPrintable (c : Char) : Bool :=
  let n := c.toNat
  n = 0x0A || (0x20 ≤ n && n ≤ 0x7E) || (0xA0 ≤ n && n ≤ 0xD7FF) ||
    (0xE000 ≤ n && n ≤ 0xFFFD && n ≠ 0xFEFF) || 0x10000 ≤ n

/-- Whether what follows separates an indicator from the text behind it. -/
def isGap : List Char → Bool
  | [] => true
  | c :: _ => isBlank c || isBreak c || c = '\x00'

/-- Whether a text opens with a sign that has a meaning at the start of a node. -/
def opensWithIndicator : List Char → Bool
  | [] => false
  | c :: rest =>
    "#,[]\x7b\x7d&*!|>\x27\x22%@\x60".toList.contains c || ((c = '?' || c = ':' || c = '-') && isGap rest)

/-- Whether a text has a sign behind its first character `before` that ends a plain scalar. -/
def hasInnerIndicator (before : Char) : List Char → Bool
  | [] => false
  | c :: rest =>
    (c = ':' && isGap rest) || (c = '#' && isGap [before]) || hasInnerIndicator c rest

/-- Whether a character that satisfies `p` is followed by one that satisfies `q`. -/
def hasPair (p q : Char → Bool) : List Char → Bool
  | c :: d :: rest => (p c && q d) || hasPair p q (d :: rest)
  | _ => false

/-- The only blank that a line is indented with. -/
def isSpace (c : Char) : Bool := c = ' '

/-- Whether a text can be written between single quotes. -/
def fitsSingleQuotes (text : List Char) : Bool :=
  text.all isPrintable && !hasPair isSpace isBreak text && !hasPair isBreak isSpace text

/-- Whether a text can be written without quotes. -/
def fitsPlain (text : List Char) : Bool :=
  fitsSingleQuotes text && !text.any isBreak &&
    !text.head?.any isSpace && !text.getLast?.any isSpace &&
    !(['-', '-', '-'].isPrefixOf text || ['.', '.', '.'].isPrefixOf text) &&
    !opensWithIndicator text &&
    match text with
    | [] => true
    | c :: rest => !hasInnerIndicator c rest

/-- Whether a text can be written as a literal block. -/
def fitsLiteral (text : List Char) : Bool :=
  !text.isEmpty && text.all isPrintable && !hasPair isSpace isBreak text &&
    !text.getLast?.any isSpace

/-- The style that a string asks for. -/
def wantedStyle (text : String) : Style :=
  let chars := text.toList
  if chars.contains '\n' then .literal
  else match Plain.resolve text with
    | .word => if Plain.hasNeedlessZero chars then .singleQuoted else .plain
    | _ => .singleQuoted

/-- The style that `text` is written in where `wanted` is asked for. -/
def writtenStyle (room : Room) (wanted : Style) (text : List Char) : Style :=
  match wanted with
  | .plain =>
    if fitsPlain text && !(text.isEmpty && room = .oneLine) then .plain
    else if fitsSingleQuotes text then .singleQuoted
    else .doubleQuoted
  | .singleQuoted => if fitsSingleQuotes text then .singleQuoted else .doubleQuoted
  | .literal => if fitsLiteral text && room = .anyLines then .literal else .doubleQuoted
  | _ => .doubleQuoted

/-- `n` spaces. -/
def spaces (n : Nat) : List Char := List.replicate n ' '

/-- Lines of a text that are indented by `column`, empty ones apart; `atStart` tells whether a line
    starts here. -/
def indentLines (column : Nat) : Bool → List Char → List Char
  | _, [] => []
  | atStart, c :: rest =>
    if isBreak c then c :: indentLines column true rest
    else if atStart then spaces column ++ c :: indentLines column false rest
    else c :: indentLines column false rest

/-- A text between single quotes: a quote is written twice, a break is followed by indentation. -/
def inSingleQuotes (column : Nat) (text : List Char) : List Char :=
  let doubled := text.flatMap fun c => if c = '\'' then [c, c] else [c]
  '\'' :: indentLines column false doubled ++
    (if text.getLast?.any isBreak then spaces column else []) ++ ['\'']

/-- The digits of `n` in base 16, upper case, at least `width` of them. -/
def upperHex (width n : Nat) : List Char :=
  let digits := (Nat.toDigits 16 n).map Char.toUpper
  List.replicate (width - digits.length) '0' ++ digits

/-- One character between double quotes. -/
def escaped (c : Char) : List Char :=
  if isPrintable c && !isBreak c && c ≠ '"' && c ≠ '\\' then [c]
  else '\\' :: match c.toNat with
    | 0x00 => ['0']
    | 0x07 => ['a']
    | 0x08 => ['b']
    | 0x09 => ['t']
    | 0x0A => ['n']
    | 0x0B => ['v']
    | 0x0C => ['f']
    | 0x0D => ['r']
    | 0x1B => ['e']
    | 0x22 => ['"']
    | 0x5C => ['\\']
    | 0x85 => ['N']
    | 0x2028 => ['L']
    | 0x2029 => ['P']
    | n =>
      if n ≤ 0xFF then 'x' :: upperHex 2 n
      else if n ≤ 0xFFFF then 'u' :: upperHex 4 n
      else 'U' :: upperHex 8 n

/-- What follows the bar of a literal block: an indentation hint if the text opens with a space or
    a break, and how the text ends. -/
def literalHints (text : List Char) : List Char :=
  let indentation := if text.head?.any fun c => isSpace c || isBreak c then ['2'] else []
  let ending := match text.reverse with
    | last :: before =>
      if !isBreak last then ['-']
      else match before with
        | [] => ['+']
        | c :: _ => if isBreak c then ['+'] else []
    | [] => ['-']
  indentation ++ ending

/-- A scalar in a style that fits it; lines behind the first are indented by `column`. -/
def scalarLines (style : Style) (column : Nat) (text : List Char) : List Char :=
  match style with
  | .singleQuoted => inSingleQuotes column text
  | .literal => '|' :: literalHints text ++ '\n' :: indentLines column true text
  | .doubleQuoted => '"' :: text.flatMap escaped ++ ['"']
  | _ => text

/-- The characters of a tag that are written as they are. -/
def isWrittenTagChar (c : Char) : Bool := c.isAlphanum || "_-;/?:@&=+$,.~*\x27()[]".toList.contains c

/-- The name of a tag, with the bytes of other characters by number. -/
def tagName (name : List Char) : List Char :=
  name.flatMap fun c =>
    if isWrittenTagChar c then [c]
    else (Text.Utf8.encode (String.singleton c)).flatMap fun b => '%' :: upperHex 2 b.toNat

/-- A local tag as it is written.  The mark is not repeated if the name has it already; a tag that
    is nothing but the mark is written in full. -/
def writtenTag (name : String) : List Char :=
  match name.toList with
  | ['!'] => "!<%21>".toList
  | '!' :: name => '!' :: tagName name
  | name => '!' :: tagName name

/-- How many bytes a local tag counts for on a line. -/
def tagSize (name : String) : Nat :=
  if name.startsWith "!" then name.utf8ByteSize else name.utf8ByteSize + 1

end DeployManifest.Yaml
