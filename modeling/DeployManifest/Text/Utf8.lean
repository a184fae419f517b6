/-!
# Bytes as text

Bytes are read as UTF-8 in one pass that yields a character for every well-formed sequence and a
gap for every malformed one.  Two readings follow from it:

1. `decode?` is strict: it gives the characters only if there is no gap.
2. `decodeLossy` writes the replacement character U+FFFD for each gap.

A gap covers the longest start of a sequence that could still have been completed, so one broken
character never swallows the character that follows it.
-/

namespace DeployManifest.Text

/-- Raw content: the value of a secret, the body of a page, a document on disk. -/
abbrev Bytes := List UInt8

namespace Utf8

/-- A sequence that has been begun: the bits so far, how many bytes are due, and the bounds of the
    next one. -/
structure Begun where
  bits : Nat
  due : Nat
  low : UInt8
  high : UInt8

/-- What a byte is at the front of a sequence. -/
inductive Lead where
  | whole (c : Char)
  | begun (sequence : Begun)
  | malformed

/-- Reads a leading byte.  The bounds of the byte after it rule out overlong forms, surrogates and
    everything above U+10FFFF. -/
def lead (a : UInt8) : Lead :=
  if a < 0x80 then .whole (Char.ofNat a.toNat)
  else if a < 0xC2 then .malformed
  else if a < 0xE0 then .begun ⟨a.toNat % 32, 1, 0x80, 0xBF⟩
  else if a < 0xF0 then
    .begun ⟨a.toNat % 16, 2, if a = 0xE0 then 0xA0 else 0x80, if a = 0xED then 0x9F else 0xBF⟩
  else if a < 0xF5 then
    .begun ⟨a.toNat % 8, 3, if a = 0xF0 then 0x90 else 0x80, if a = 0xF4 then 0x8F else 0xBF⟩
  else .malformed

/-- The characters of a byte sequence in order, `none` standing for a malformed stretch; `begun?`
    is the sequence the first byte may continue. -/
def pieces (begun? : Option Begun) : Bytes → List (Option Char)
  | [] => if begun?.isSome then [none] else []
  | b :: rest =>
    match begun?.filter fun sequence => sequence.low ≤ b && b ≤ sequence.high with
    | some sequence =>
      let bits := sequence.bits * 64 + b.toNat % 64
      if sequence.due ≤ 1 then some (Char.ofNat bits) :: pieces none rest
      else pieces (some ⟨bits, sequence.due - 1, 0x80, 0xBF⟩) rest
    | none =>
      (if begun?.isSome then [none] else []) ++
        match lead b with
        | .whole c => some c :: pieces none rest
        | .begun sequence => pieces (some sequence) rest
        | .malformed => none :: pieces none rest

/-- The bytes of a text. -/
def encode (text : String) : Bytes := text.toUTF8.data.toList

/-- The text, if all of it is well formed. -/
def decode? (bytes : Bytes) : Option (List Char) := (pieces none bytes).mapM id

/-- The text with U+FFFD in place of every malformed stretch. -/
def decodeLossy (bytes : Bytes) : List Char :=
  (pieces none bytes).map (·.getD (Char.ofNat 0xFFFD))

end Utf8

/-- The text `bytes` stand for, malformed stretches replaced. -/
def ofBytesLossy (bytes : Bytes) : String := String.ofList (Utf8.decodeLossy bytes)

end DeployManifest.Text
