import DeployManifest.Yaml.Token
import DeployManifest.Yaml.Token.Place
import DeployManifest.Yaml.Scalar
import DeployManifest.Text.Utf8

/-!
# Tags, anchors and directives

A tag is written in full between angle brackets, or as a handle and a suffix.  Bytes that may not
stand in it are escaped with a percent sign.  Escapes have to come in groups that look like the
bytes of a character, a leading byte and those due after it; whether there is such a character is
not asked.  An escaped zero byte ends the text: what is written behind it does not count.

- `readTagText?`: the bytes of a tag, with escapes undone.
- `readTag?`, `readAnchor?`: the two properties of a node.
- `readDirective?`: a line of directives.
-/

namespace DeployManifest.Yaml

open Text (Bytes)

/-- The characters of a tag; the last three only where brackets or spaces end the tag. -/
def isTagChar (delimited : Bool) (c : Char) : Bool :=
  isNameChar c || ";/?:@&=+$.%!~*'()".toList.contains c ||
    (delimited && (c == ',' || c == '[' || c == ']'))

/-- How many bytes of a group of escapes are due after `byte`, if `due` were due with it, zero
    meaning that it starts a group; `none` if it may not stand there. -/
def dueAfter? (due : Nat) (byte : UInt8) : Option Nat :=
  match due with
  | 0 =>
    if byte < 0x80 then some 0
    else if byte < 0xC0 then none
    else if byte < 0xE0 then some 1
    else if byte < 0xF0 then some 2
    else if byte < 0xF8 then some 3
    else none
  | due + 1 => if 0x80 ≤ byte && byte < 0xC0 then some due else none

/-- The bytes of a tag text with its percent escapes undone, `due` of which have to be escapes that
    complete a group. -/
def unescape? (due : Nat) : List Char → Option Bytes
  | [] => if due = 0 then some [] else none
  | '%' :: a :: b :: rest =>
    match Plain.nat? 16 [a, b] with
    | some n =>
      let byte := UInt8.ofNat n
      match dueAfter? due byte with
      | some due => (unescape? due rest).map (byte :: ·)
      | none => none
    | none => none
  | c :: rest =>
    if due = 0 && c ≠ '%' then (unescape? 0 rest).map (Text.Utf8.encode (String.singleton c) ++ ·)
    else none

/-- The tag text at `p`, which may be empty, up to the first zero byte, and the place behind all of
    it. -/
def readTagText? (delimited : Bool) (p : Place) : Option (Bytes × Place) :=
  let raw := p.rest.takeWhile (isTagChar delimited)
  (unescape? 0 raw).map fun text => (text.takeWhile (· ≠ 0), p.advance raw.length)

/-- No tag text that is read holds a zero byte. -/
theorem ne_zero_of_readTagText? {delimited : Bool} {p next : Place} {text : Bytes}
    (read : readTagText? delimited p = some (text, next)) : ∀ b ∈ text, b ≠ 0 := by
  simp only [readTagText?, Option.map_eq_some_iff, Prod.mk.injEq] at read
  obtain ⟨whole, -, rfl, -⟩ := read
  intro b mem
  have nonzero : (whole.takeWhile (· ≠ 0)).all (· ≠ 0) := List.all_takeWhile
  exact of_decide_eq_true (List.all_eq_true.mp nonzero b mem)

/-- The tag text at `p`, of which something has to be written. -/
def readWrittenTagText? (delimited : Bool) (p : Place) : Option (Bytes × Place) :=
  if p.rest.head?.any (isTagChar delimited) then readTagText? delimited p else none

/-- The handle at `p`, such as `!`, `!!` or `!name!`; the last mark may be missing. -/
def readHandle? (p : Place) : Option (List Char × Place) :=
  match p.rest with
  | '!' :: rest =>
    let name := rest.takeWhile isNameChar
    let mark : List Char := match rest.drop name.length with
      | '!' :: _ => ['!']
      | _ => []
    let handle := '!' :: name ++ mark
    some (handle, p.advance handle.length)
  | _ => none

/-- Whether a handle has a mark at both ends. -/
def isClosedHandle (handle : List Char) : Bool :=
  2 ≤ handle.length && handle.getLast? == some '!'

/-- The tag at `p`: its handle and suffix, and the place behind it. -/
def readTag? (p : Place) : Option (Token × Place) :=
  match p.rest with
  | '!' :: '<' :: _ =>
    match readWrittenTagText? true (p.advance 2) with
    | some (text, next) =>
      if next.rest.head? == some '>' then some (.tag "" text, next.advance 1) else none
    | none => none
  | _ =>
    match readHandle? p with
    | none => none
    | some (handle, next) =>
      if isClosedHandle handle then
        (readWrittenTagText? false next).map fun (text, last) =>
          (.tag (String.ofList handle) text, last)
      else
        (readTagText? false next).map fun (text, last) =>
          match Text.Utf8.encode (String.ofList (handle.drop 1)) ++ text with
          | [] => (.tag "" (Text.Utf8.encode "!"), last)
          | suffix => (.tag "!" suffix, last)

/-- The name of the anchor or alias whose indicator stands at `p`, and the place behind it. -/
def readAnchor? (p : Place) : Option (String × Place) :=
  let p := p.advance 1
  let name := p.rest.takeWhile isNameChar
  let next := p.advance name.length
  let closed := atGap next.rest || match next.rest with
    | c :: _ => "?:,]\x7d%@\x60".toList.contains c
    | [] => true
  if name.isEmpty || !closed then none else some (String.ofList name, next)

/-- A number of a version, at most nine digits long. -/
def readVersionNumber? (p : Place) : Option (Nat × Place) :=
  let digits := p.rest.takeWhile Char.isDigit
  if digits.length ≤ 9 then
    (Plain.nat? 10 digits).map fun n => (n, p.advance digits.length)
  else none

/-- The version directive whose numbers follow at `p`. -/
def readVersion? (p : Place) : Option (Token × Place) := do
  let (major, p) ← readVersionNumber? (p.skipWhile isBlank)
  guard (p.rest.head? == some '.')
  let (minor, p) ← readVersionNumber? (p.advance 1)
  return (.versionDirective major minor, p)

/-- The tag directive whose handle and start of a tag follow at `p`. -/
def readTagDirective? (p : Place) : Option (Token × Place) := do
  let (handle, p) ← readHandle? (p.skipWhile isBlank)
  guard (handle == ['!'] || isClosedHandle handle)
  guard (p.rest.head?.any isBlank)
  let (start, p) ← readWrittenTagText? true (p.skipWhile isBlank)
  guard (atGap p.rest)
  return (.tagDirective (String.ofList handle) start, p)

/-- The directive at `p` and the place behind its line. -/
def readDirective? (p : Place) : Option (Token × Place) := do
  let p := p.advance 1
  let name := p.rest.takeWhile isNameChar
  let p := p.advance name.length
  guard (atGap p.rest)
  let (token, p) ←
    if name == ['Y', 'A', 'M', 'L'] then readVersion? p
    else if name == ['T', 'A', 'G'] then readTagDirective? p
    else none
  let p ← p.finishLine?
  return (token, p)

end DeployManifest.Yaml
