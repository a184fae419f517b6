import DeployManifest.Text.Utf8
import DeployManifest.Text.Quoted

/-!
# Documents as handed in

A document arrives as a text or as bytes.  Bytes that are not UTF-8 can still be shown in a
message, but not be read.

`snippet` is what messages show of a document: its first 256 characters and an ellipsis if there
are more.
-/

namespace DeployManifest.Yaml

open Text (Bytes)

/-- A document: the text messages show of it, and its characters if it can be read. -/
structure Source where
  shown : String
  chars? : Option (List Char)

namespace Source

/-- A document that arrives as a text, which can always be read. -/
def ofString (text : String) : Source := ⟨text, some text.toList⟩

/-- A document that arrives as bytes, which need not be a text. -/
def ofBytes (bytes : Bytes) : Source := ⟨Text.ofBytesLossy bytes, Text.Utf8.decode? bytes⟩

/-- How many characters of a document a message shows. -/
def snippetLength : Nat := 256

/-- The part of the document that messages show. -/
def snippet (source : Source) : String :=
  let chars := source.shown.toList
  if chars.length ≤ snippetLength then source.shown
  else String.ofList (chars.take snippetLength ++ ['…'])

/-- Whether the document has nothing but blanks. -/
def isBlank (source : Source) : Bool :=
  source.shown.toList.all fun c =>
    c == ' ' || c == '\t' || c == '\n' || c == '\x0c' || c == '\r'

end Source

/-- The characters a document may consist of. -/
def isAllowed (c : Char) : Bool :=
  let n := c.toNat
  n = 0x09 || n = 0x0A || n = 0x0D || (0x20 ≤ n && n ≤ 0x7E) || n = 0x85 ||
    (0xA0 ≤ n && n ≤ 0xD7FF) || (0xE000 ≤ n && n ≤ 0xFFFD) || 0x10000 ≤ n

end DeployManifest.Yaml
