import DeployManifest.Table
import DeployManifest.Text.Word
import DeployManifest.Text.Search

/-!
# Placeholders

A placeholder stands for the value of a variable.  It is written `((name))` or `((!name))`, where
the name consists of words, dots, slashes and dashes.

`pieces` cuts a text into placeholders and the characters between them; put together again, the
pieces are the text.  `names` lists the variables that the placeholders of a text refer to: a name
with a slash is kept whole, of any other name only the first part between dots counts, as the others
choose a field of the variable's value.
-/

namespace DeployManifest

/-- A placeholder; `marked` tells whether an exclamation mark stands in front of the name. -/
structure Placeholder where
  marked : Bool
  name : List Char
  deriving DecidableEq, Repr

namespace Placeholder

/-- The characters of names. -/
def isNameChar (c : Char) : Bool := c = '-' || c = '/' || c = '.' || Text.isWord c

/-- What stands between the parentheses. -/
def inner (p : Placeholder) : List Char := if p.marked then '!' :: p.name else p.name

/-- The placeholder as it is written. -/
def written (p : Placeholder) : List Char := '(' :: '(' :: p.inner ++ [')', ')']

/-- The name behind two parentheses and perhaps a mark, if it is followed by two parentheses. -/
def closed? (marked : Bool) (text : List Char) : Option Placeholder :=
  let name := text.takeWhile isNameChar
  match name, text.drop name.length with
  | _ :: _, ')' :: ')' :: _ => some ⟨marked, name⟩
  | _, _ => none

/-- The placeholder a text starts with. -/
def first? : List Char → Option Placeholder
  | '(' :: '(' :: '!' :: text => closed? true text
  | '(' :: '(' :: text => closed? false text
  | _ => none

/-- A name is the start of the text it is read from. -/
theorem written_of_closed? {marked : Bool} {text : List Char} {p : Placeholder}
    (h : closed? marked text = some p) :
    p.marked = marked ∧ ∃ rest, text = p.name ++ ')' :: ')' :: rest := by
  obtain ⟨rest, ht⟩ := List.takeWhile_prefix isNameChar (l := text)
  unfold closed? at h
  generalize text.takeWhile isNameChar = name at h ht
  subst ht
  simp only [List.drop_left] at h
  split at h
  · cases h
    exact ⟨rfl, _, rfl⟩
  · cases h

/-- A text starts with the placeholder that is found there. -/
theorem eq_written_append_of_first? {text : List Char} {p : Placeholder}
    (h : first? text = some p) : ∃ rest, text = p.written ++ rest := by
  unfold first? at h
  split at h
  · obtain ⟨hm, rest, rfl⟩ := written_of_closed? h
    exact ⟨rest, by simp [written, inner, hm]⟩
  · obtain ⟨hm, rest, rfl⟩ := written_of_closed? h
    exact ⟨rest, by simp [written, inner, hm]⟩
  · cases h

/-- Whether the name chooses a key of a secret. -/
def isSlashed (name : List Char) : Bool := name.contains '/'

/-- The variable a name refers to; dots in front of it do not count. -/
def root? (name : List Char) : Option String :=
  if isSlashed name then some (String.ofList name)
  else ((Text.splitAt '.' name).find? fun part => !part.isEmpty).map String.ofList

end Placeholder

/-- A part of a text. -/
inductive Piece where
  | char (c : Char)
  | placeholder (p : Placeholder)

namespace Piece

/-- The piece as it is written. -/
def written : Piece → List Char
  | .char c => [c]
  | .placeholder p => p.written

/-- The placeholder that a piece is, if it is one. -/
def placeholder? : Piece → Option Placeholder
  | .char _ => none
  | .placeholder p => some p

/-- The pieces of a text of which `skip` characters belong to the last piece. -/
def piecesFrom : Nat → List Char → List Piece
  | _, [] => []
  | skip + 1, _ :: rest => piecesFrom skip rest
  | 0, c :: rest =>
    match Placeholder.first? (c :: rest) with
    | some p => .placeholder p :: piecesFrom (p.written.length - 1) rest
    | none => .char c :: piecesFrom 0 rest

/-- The pieces of a text. -/
def pieces (text : List Char) : List Piece := piecesFrom 0 text

/-- The pieces of a text from some character on are that text again. -/
theorem flatMap_written_piecesFrom (skip : Nat) (text : List Char) :
    (piecesFrom skip text).flatMap written = text.drop skip := by
  induction text generalizing skip with
  | nil => cases skip <;> rfl
  | cons c rest ih =>
    cases skip with
    | succ skip => simpa [piecesFrom] using ih skip
    | zero =>
      unfold piecesFrom
      split
      · next p h =>
        obtain ⟨tail, ht⟩ := Placeholder.eq_written_append_of_first? h
        have hrest : rest = p.written.tail ++ tail := (List.cons.inj ht).2
        have hlength : p.written.length - 1 = p.written.tail.length := by simp
        rw [List.flatMap_cons, ih, hlength]
        conv => lhs; rw [hrest]
        rw [List.drop_left, List.drop_zero, ht]
        rfl
      · simpa [written] using ih 0

/-- The pieces of a text make it up. -/
theorem flatMap_written_pieces (text : List Char) : (pieces text).flatMap written = text :=
  flatMap_written_piecesFrom 0 text

end Piece

namespace Placeholder

/-- The placeholders of a text, from left to right. -/
def all (text : List Char) : List Placeholder := (Piece.pieces text).filterMap Piece.placeholder?

/-- The variables that the placeholders of a text refer to. -/
def names (text : String) : NameSet :=
  .ofNames ((all text.toList).filterMap fun p => root? p.name)

end Placeholder
end DeployManifest
