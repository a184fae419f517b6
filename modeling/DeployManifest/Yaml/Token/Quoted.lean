import DeployManifest.Yaml.Token.Place
import DeployManifest.Yaml.Scalar

/-!
# Scalars that flow over lines

Quoted and plain scalars may run over several lines.  The blanks around a line break do not count,
a single break becomes a space, and of several breaks all but the first are kept.  `Gap` holds what
has been read since the last character that counts; it is joined to the text only when another
such character follows.

- `readQuoted?`: a scalar in quotes, and the place behind the closing one.
- `readPlain?`: a scalar without quotes, up to where it has to end.
-/

namespace DeployManifest.Yaml

/-- White space read since the last character of a scalar. -/
inductive Gap where
  | nothing
  | blanks (text : List Char)
  /-- A first line break, missing if it was escaped, and the breaks after it. -/
  | breaks (first? : Option Char) (more : List Char)

namespace Gap

/-- The gap after one more blank. -/
def blank (c : Char) : Gap → Gap
  | .nothing => .blanks [c]
  | .blanks text => .blanks (text ++ [c])
  | .breaks first? more => .breaks first? more

/-- The gap after one more line break. -/
def lineBreak (c : Char) : Gap → Gap
  | .breaks first? more => .breaks first? (more ++ [c])
  | _ => .breaks (some c) []

/-- What a gap adds to the text in the middle of a scalar. -/
def joined : Gap → List Char
  | .nothing => []
  | .blanks text => text
  | .breaks (some '\n') [] => [' ']
  | .breaks (some '\n') more => more
  | .breaks first? more => first?.toList ++ more

/-- Whether nothing has been read since the last character that counts. -/
def isNothing : Gap → Bool
  | .nothing => true
  | _ => false

/-- Whether the gap reaches over the end of a line. -/
def isBroken : Gap → Bool
  | .breaks _ _ => true
  | _ => false

end Gap

/-- What the character after a backslash stands for. -/
inductive Escape where
  | char (c : Char)
  /-- A character given by so many hexadecimal digits. -/
  | byNumber (digits : Nat)

/-- What a character behind a backslash stands for. -/
def escape? (c : Char) : Option Escape :=
  match c with
  | '0' => some (.char '\x00')
  | 'a' => some (.char '\x07')
  | 'b' => some (.char '\x08')
  | 't' | '\t' => some (.char '\t')
  | 'n' => some (.char '\n')
  | 'v' => some (.char '\x0b')
  | 'f' => some (.char '\x0c')
  | 'r' => some (.char '\r')
  | 'e' => some (.char '\x1b')
  | ' ' | '"' | '/' | '\\' => some (.char c)
  | 'N' => some (.char (Char.ofNat 0x85))
  | '_' => some (.char (Char.ofNat 0xA0))
  | 'L' => some (.char (Char.ofNat 0x2028))
  | 'P' => some (.char (Char.ofNat 0x2029))
  | 'x' => some (.byNumber 2)
  | 'u' => some (.byNumber 4)
  | 'U' => some (.byNumber 8)
  | _ => none

/-- The character with the number that `digits` spell in base 16. -/
def charByNumber? (digits : List Char) : Option Char :=
  match Plain.nat? 16 digits with
  | some n => if n.isValidChar then some (Char.ofNat n) else none
  | none => none

/-- The rest of a quoted scalar from `p` on: its text behind `text` (last character first) and the
    place behind the closing quote. -/
def quotedFrom (single : Bool) : Nat → Place → Gap → List Char → Option (List Char × Place)
  | 0, _, _, _ => none
  | fuel + 1, p, gap, text =>
    match p.readBreak? with
    | some (c, next) => quotedFrom single fuel next (gap.lineBreak c) text
    | none =>
      match p.rest with
      | [] => none
      | c :: rest =>
        if isBlank c then quotedFrom single fuel (p.advance 1) (gap.blank c) text
        else if p.column = 0 && atDocumentMarker p.rest then none
        else
          let text := gap.joined.reverse ++ text
          if single then
            match c, rest with
            | '\'', '\'' :: _ => quotedFrom single fuel (p.advance 2) .nothing ('\'' :: text)
            | '\'', _ => some (text.reverse, p.advance 1)
            | _, _ => quotedFrom single fuel (p.advance 1) .nothing (c :: text)
          else if c = '"' then some (text.reverse, p.advance 1)
          else if c = '\\' then
            match (p.advance 1).readBreak? with
            | some (_, next) => quotedFrom single fuel next (.breaks none []) text
            | none =>
              match rest with
              | [] => none
              | e :: digits =>
                match escape? e with
                | none => none
                | some (.char c) => quotedFrom single fuel (p.advance 2) .nothing (c :: text)
                | some (.byNumber n) =>
                  if (digits.take n).length = n then
                    match charByNumber? (digits.take n) with
                    | some c => quotedFrom single fuel (p.advance (2 + n)) .nothing (c :: text)
                    | none => none
                  else none
          else quotedFrom single fuel (p.advance 1) .nothing (c :: text)

/-- The text of the quoted scalar that starts at `p`, and the place behind it. -/
def readQuoted? (single : Bool) (p : Place) : Option (List Char × Place) :=
  quotedFrom single (p.rest.length + 1) (p.advance 1) .nothing []

/-- How a plain scalar ends: its text, the place behind the white space that follows it, and
    whether that white space reaches over the end of a line. -/
structure PlainEnd where
  text : List Char
  place : Place
  broken : Bool

/-- The end at `p`, behind `text` (last character first) and `gap`. -/
def PlainEnd.behind (text : List Char) (gap : Gap) (p : Place) : PlainEnd :=
  ⟨text.reverse, p, gap.isBroken⟩

/-- Whether a plain scalar ends before the text `c :: rest`. -/
def endsPlain (inFlow : Bool) (c : Char) (rest : List Char) : Bool :=
  (c == ':' && atGap rest) ||
    (inFlow && (c == ',' || c == '[' || c == ']' || c == '{' || c == '}'))

/-- A colon that a plain scalar in a flow collection may not hold. -/
def isStrayColon (inFlow : Bool) (c : Char) (rest : List Char) : Bool :=
  inFlow && c == ':' && match rest with
    | d :: _ => d == ',' || d == '?' || d == '[' || d == ']' || d == '{' || d == '}'
    | [] => false

/-- The rest of a plain scalar from `p` on.  In a block, the lines it runs over are indented by at
    least `indent`. -/
def plainFrom (inFlow : Bool) (indent : Int) :
    Nat → Place → Gap → List Char → Option PlainEnd
  | 0, _, _, _ => none
  | fuel + 1, p, gap, text =>
    match p.readBreak? with
    | some (c, next) => plainFrom inFlow indent fuel next (gap.lineBreak c) text
    | none =>
      match p.rest with
      | [] => some (.behind text gap p)
      | c :: rest =>
        if isBlank c then
          if gap.isBroken && p.column < indent && c == '\t' then none
          else plainFrom inFlow indent fuel (p.advance 1) (gap.blank c) text
        else if !gap.isNothing && ((!inFlow && p.column < indent) ||
            (p.column = 0 && atDocumentMarker p.rest) || c == '#') then
          some (.behind text gap p)
        else if isStrayColon inFlow c rest then none
        else if endsPlain inFlow c rest then some (.behind text gap p)
        else plainFrom inFlow indent fuel (p.advance 1) .nothing
          (c :: (gap.joined.reverse ++ text))

/-- The plain scalar that starts at `p`. -/
def readPlain? (inFlow : Bool) (indent : Int) (p : Place) : Option PlainEnd :=
  plainFrom inFlow indent (p.rest.length + 1) p .nothing []

end DeployManifest.Yaml
