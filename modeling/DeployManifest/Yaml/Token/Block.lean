import DeployManifest.Yaml.Token.Place

/-!
# Block scalars

A block scalar is read line by line.  Its header says whether line breaks are kept or folded to
spaces, what happens to the breaks at its end, and perhaps how far its lines are indented; without
that the first line that is not empty decides.

- `Chomping`: what happens to the line breaks at the end.
- `blockHeader`: what the characters behind the mark say.
- `readBlock?`: a whole block, and the place behind it.
-/

namespace DeployManifest.Yaml

/-- What happens to the line breaks at the end of a block scalar: by default one is kept. -/
inductive Chomping where
  | strip
  | clip
  | keep
  deriving DecidableEq

/-- What the sign in a header says of the line breaks at the end. -/
def chomping? : List Char → Option Chomping
  | '+' :: _ => some .keep
  | '-' :: _ => some .strip
  | _ => none

/-- The extra indentation a header may name, from 1 to 9. -/
def indentHint? : List Char → Option Nat
  | c :: _ => if '1' ≤ c && c ≤ '9' then some (c.toNat - 48) else none
  | [] => none

/-- The header behind the indicator: chomping and indentation in either order, zero standing for no
    indentation.  A digit 0 is left to fail as a stray character. -/
def blockHeader (p : Place) : Chomping × Nat × Place :=
  match chomping? p.rest with
  | some chomping =>
    let p := p.advance 1
    match indentHint? p.rest with
    | some n => (chomping, n, p.advance 1)
    | none => (chomping, 0, p)
  | none =>
    match indentHint? p.rest with
    | some n =>
      let p := p.advance 1
      match chomping? p.rest with
      | some chomping => (chomping, n, p.advance 1)
      | none => (.clip, n, p)
    | none => (.clip, 0, p)

/-- The white space between two lines of a block scalar: the deepest column reached, the breaks in
    it (last one first), and the place behind it. -/
structure BlockGap where
  deepest : Nat
  breaks : List Char
  place : Place

/-- Reads empty lines and the indentation of the line after them.  `indent` is zero as long as the
    indentation is not known.  A tab may not stand in for it. -/
def blockGapFrom (indent : Nat) : Nat → BlockGap → Option BlockGap
  | 0, _ => none
  | fuel + 1, gap =>
    let p := gap.place
    let inside := indent = 0 || p.column < indent
    match p.rest with
    | ' ' :: _ =>
      if inside then blockGapFrom indent fuel { gap with place := p.advance 1 }
      else some { gap with deepest := max gap.deepest p.column }
    | '\t' :: _ => if inside then none else some { gap with deepest := max gap.deepest p.column }
    | _ =>
      let deepest := max gap.deepest p.column
      match p.readBreak? with
      | some (c, next) => blockGapFrom indent fuel ⟨deepest, c :: gap.breaks, next⟩
      | none => some { gap with deepest := deepest }

/-- Reads the lines in front of the next one that counts.  A line with more blanks than the indentation of
    the block counts already. -/
def readBlockGap? (indent : Nat) (p : Place) : Option BlockGap :=
  blockGapFrom indent (p.rest.length + 1) ⟨0, [], p⟩

/-- Whether a line starts with a blank; such lines are not folded. -/
def startsBlank : List Char → Bool
  | c :: _ => isBlank c
  | [] => false

/-- The lines of a block scalar that are indented by `indent`.  `text` is what has been read (last
    character first), `last` the break behind it, and `gap` the white space up to the next line. -/
def blockLines (literal : Bool) (chomping : Chomping) (indent : Nat) :
    Nat → (text last : List Char) → (afterBlank : Bool) → BlockGap → Option (List Char × Place)
  | 0, _, _, _, _ => none
  | fuel + 1, text, last, afterBlank, gap =>
    let p := gap.place
    if p.column = indent && !p.rest.isEmpty then
      let blank := startsBlank p.rest
      let folded := !literal && last == ['\n'] && !afterBlank && !blank
      let before := if folded then (if gap.breaks.isEmpty then [' '] else []) else last
      let line := p.rest.takeWhile fun c => !isBreak c
      let p := p.advance line.length
      let (last, p) : List Char × Place := match p.readBreak? with
        | some (c, next) => ([c], next)
        | none => ([], p)
      let text := line.reverse ++ (gap.breaks ++ (before ++ text))
      match readBlockGap? indent p with
      | some gap => blockLines literal chomping indent fuel text last blank gap
      | none => none
    else
      let text := if chomping = .strip then text else last ++ text
      let text := if chomping = .keep then gap.breaks ++ text else text
      some (text.reverse, p)

/-- The text of the block scalar whose indicator stands at `p`, in a collection with indentation
    `outer`, and the place behind it. -/
def readBlock? (literal : Bool) (outer : Int) (p : Place) : Option (List Char × Place) :=
  let (chomping, hint, p) := blockHeader (p.advance 1)
  match p.finishLine? with
  | none => none
  | some p =>
    let named : Nat := if hint = 0 then 0 else (max outer 0).toNat + hint
    match readBlockGap? named p with
    | none => none
    | some gap =>
      let indent := if named = 0 then max gap.deepest (max (outer + 1) 1).toNat else named
      blockLines literal chomping indent (p.rest.length + 1) [] [] false gap

end DeployManifest.Yaml
