import DeployManifest.Text.Utf8

/-!
# Tokens

The words of a document: marks that open, separate and close collections, the properties of nodes,
and scalars with all quoting undone.  Tags are bytes: with their escapes undone they need not be
text.

- `Style`: how a scalar was written, which decides whether it may be anything but a text.
- `Token`: the tokens.
-/

namespace DeployManifest.Yaml

open Text (Bytes)

/-- How a scalar is written. -/
inductive Style where
  | plain
  | singleQuoted
  | doubleQuoted
  | literal
  | folded
  deriving DecidableEq, Repr

/-- A token.  Opening and closing marks of blocks stand for indentation and have no characters of their own.
    -/
inductive Token where
  | versionDirective (major minor : Nat)
  | tagDirective (handle : String) (start : Bytes)
  | documentStart
  | documentEnd
  | blockSequenceStart
  | blockMappingStart
  | blockEnd
  | flowSequenceStart
  | flowSequenceEnd
  | flowMappingStart
  | flowMappingEnd
  | blockEntry
  | flowEntry
  | key
  | value
  | alias (name : String)
  | anchor (name : String)
  /-- A tag; an empty handle means that the suffix is the whole tag. -/
  | tag (handle : String) (suffix : Bytes)
  | scalar (style : Style) (text : String)
  deriving DecidableEq, Repr

end DeployManifest.Yaml
