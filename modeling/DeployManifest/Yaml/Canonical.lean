import DeployManifest.Table
import DeployManifest.Text.Search
import DeployManifest.Text.Quoted
import DeployManifest.Digest.Sha256
import DeployManifest.Yaml.Printer

/-!
# Canonical texts

A tree has one canonical text, however its mappings are ordered: keys are sorted before printing.
Keys that are no strings come first, by their description, then strings.

Long strings that occur again are written once and referred to from then on.  The first entry that
holds such a string gets an anchor, named by the string's digest; entries further on refer to it.
The anchors are put in in two steps.  The tree is marked: the first key becomes `key=digest`, and
every later value becomes `*digest`.  Then the printed text is searched for the marks, which turn
into `key: &digest` and into references.

- `Value.sorted`: the tree with all mappings sorted.
- `Value.mark`: the tree with marks.
- `Value.canonical?`: the canonical text, and `contentHash?`, its digest.
-/

namespace DeployManifest.Yaml

namespace Value

mutual

/-- A description of a tree, by which keys are ordered. -/
def describe : Value → String
  | .null => "Null"
  | .bool b => "Bool(" ++ toString b ++ ")"
  | .int n => "Number(" ++ toString n ++ ")"
  | .float x => "Number(" ++ x.text ++ ")"
  | .string s => "String(" ++ Text.quote s ++ ")"
  | .seq items => "Sequence [" ++ describeItems items ++ "]"
  | .map entries => "Mapping \x7b" ++ describeEntries entries ++ "\x7d"
  | .tagged tag content =>
    "TaggedValue \x7b tag: !" ++ tag ++ ", value: " ++ describe content ++ " \x7d"

/-- The same for the items of a sequence, with commas between them. -/
def describeItems : List Value → String
  | [] => ""
  | [v] => describe v
  | v :: rest => describe v ++ ", " ++ describeItems rest

/-- The same for the entries of a mapping, with commas between them. -/
def describeEntries : List (Value × Value) → String
  | [] => ""
  | [(k, v)] => describeKey k ++ ": " ++ describe v
  | (k, v) :: rest => describeKey k ++ ": " ++ describe v ++ ", " ++ describeEntries rest

/-- Scalar keys stand for themselves. -/
def describeKey : Value → String
  | .bool b => toString b
  | .int n => toString n
  | .float x => x.text
  | .string s => Text.quote s
  | .null => "Null"
  | .seq items => "Sequence [" ++ describeItems items ++ "]"
  | .map entries => "Mapping \x7b" ++ describeEntries entries ++ "\x7d"
  | .tagged tag content =>
    "TaggedValue \x7b tag: !" ++ tag ++ ", value: " ++ describe content ++ " \x7d"

end

/-- Where a key belongs among the keys of a mapping: strings go behind all others. -/
def rank : Value → Nat × String
  | .string s => (1, s)
  | key => (0, key.describe)

/-- Whether a key may stand in front of another. -/
def precedes (a b : Nat × String) : Bool := a.1 < b.1 || (a.1 == b.1 && a.2 ≤ b.2)

/-- Puts an entry behind those that may stand in front of it. -/
def insertSorted (entry : Value × Value) : Entries → Entries
  | [] => [entry]
  | first :: rest =>
    if precedes (rank first.1) (rank entry.1) then first :: insertSorted entry rest
    else entry :: first :: rest

/-- Entries in the order of their keys. -/
def sortEntries (entries : Entries) : Entries :=
  (entries.foldl (fun sorted entry => insertSorted entry sorted) [])

mutual

/-- The tree with the entries of all mappings sorted and put in again; keys are left as they are. -/
def sorted : Value → Value
  | .seq items => .seq (sortedItems items)
  | .map entries => .map (insertAll (sortEntries (sortedEntries entries)))
  | .tagged tag content => .tagged tag (sorted content)
  | v => v

/-- The items of a sequence, each of them sorted. -/
def sortedItems : List Value → List Value
  | [] => []
  | v :: rest => sorted v :: sortedItems rest

/-- The entries of a mapping in their old order, with sorted values. -/
def sortedEntries : List (Value × Value) → List (Value × Value)
  | [] => []
  | (k, v) :: rest => (k, sorted v) :: sortedEntries rest

end

end Value

/-- The keys of the entries that were given an anchor, by the digest of what they hold. -/
abbrev Anchors := Table String

namespace Anchors

/-- Only strings of more bytes are given anchors. -/
def minSize : Nat := 64

/-- The most bytes of a key that can be given an anchor. -/
def maxKeySize : Nat := 48

/-- Words that are no anchored keys, in any case. -/
def reservedWords : List String := ["true", "false", "null", "yes", "no", "on", "off"]

/-- Whether an entry with this key can be given an anchor: the key is written plainly. -/
def isAnchorKey (key : String) : Bool :=
  match key.toList with
  | [] => false
  | c :: rest =>
    (c.isAlpha || c == '_') &&
      rest.all (fun c => c.isAlphanum || c == '_' || c == '.' || c == '-' || c == '/') &&
      key.utf8ByteSize ≤ maxKeySize && !reservedWords.contains key.toLower

/-- The digest of a value that may be given an anchor. -/
def digest? : Value → Option String
  | .string s => if minSize < s.utf8ByteSize then some (Digest.ofText s) else none
  | _ => none

/-- The value that refers to the anchor of this digest. -/
def reference (digest : String) : Value := .string ("*" ++ digest)

/-- The key of an entry that defines the anchor of this digest. -/
def definition (key digest : String) : Value := .string (key ++ "=" ++ digest)

/-- Marks an entry with a long string. -/
def markLong (anchors : Anchors) (key value : Value) (digest : String) :
    (Value × Value) × Anchors :=
  if anchors.contains digest then ((key, reference digest), anchors)
  else match key.asString?.filter isAnchorKey with
    | some name => ((definition name digest, value), anchors.insert digest name)
    | none => ((key, value), anchors)

end Anchors

namespace Value

open Anchors (digest? markLong)

mutual

/-- The tree with marks, and the anchors that are defined behind it. -/
def mark (anchors : Anchors) : Value → Value × Anchors
  | .seq items =>
    let (items, anchors) := markItems anchors items
    (.seq items, anchors)
  | .map entries =>
    let (entries, anchors) := markEntries anchors entries
    (.map (insertAll entries), anchors)
  | .tagged tag content =>
    let (content, anchors) := mark anchors content
    (.tagged tag content, anchors)
  | v => (v, anchors)

/-- The same for the items of a sequence: what is marked in one is known in the next. -/
def markItems (anchors : Anchors) : List Value → List Value × Anchors
  | [] => ([], anchors)
  | v :: rest =>
    let (v, anchors) := mark anchors v
    let (rest, anchors) := markItems anchors rest
    (v :: rest, anchors)

/-- The same for the entries of a mapping.  It is here that long strings are found, for a mark needs the
    key. -/
def markEntries (anchors : Anchors) : List (Value × Value) → List (Value × Value) × Anchors
  | [] => ([], anchors)
  | (k, v) :: rest =>
    match digest? v with
    | some digest =>
      let (entry, anchors) := markLong anchors k v digest
      let (rest, anchors) := markEntries anchors rest
      (entry :: rest, anchors)
    | none =>
      let (v, anchors) := mark anchors v
      let (rest, anchors) := markEntries anchors rest
      ((k, v) :: rest, anchors)

end

end Value

namespace Anchors

/-- Turns the marks for one digest into references and an anchor. -/
def putIn (text : List Char) (digest key : String) : List Char :=
  let digest := digest.toList
  let reference := '*' :: digest
  let text := Text.replaceAll ('\'' :: reference ++ ['\'']) reference text
  let text := Text.replaceAll ('"' :: reference ++ ['"']) reference text
  Text.replaceAll (key.toList ++ '=' :: digest ++ [':', ' '])
    (key.toList ++ ':' :: ' ' :: '&' :: digest ++ [' ']) text

/-- Turns all marks of a printed tree into references and anchors. -/
def putInAll (anchors : Anchors) (text : String) : String :=
  String.ofList (anchors.entries.foldl (fun text (digest, key) => putIn text digest key) text.toList)

end Anchors

namespace Value

/-- The canonical text of a tree, if it can be printed. -/
def canonical? (v : Value) : Option String :=
  let (marked, anchors) := v.sorted.mark .empty
  marked.print?.map anchors.putInAll

/-- The digest of the canonical text. -/
def contentHash? (v : Value) : Option String := v.canonical?.map Digest.ofText

end Value
end DeployManifest.Yaml
