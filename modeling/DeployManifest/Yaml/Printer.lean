import DeployManifest.Yaml.Value
import DeployManifest.Yaml.Printer.Scalar

/-!
# Printing trees

Trees are printed in block style: an entry of a mapping or an item of a sequence a line, nested
collections two columns further in.  A sequence behind a key starts in the column of the key.
Empty collections are written as a pair of brackets.

A key stands on one line in front of its colon if it is a scalar without line breaks or an empty
collection and has at most `maxKeySize` bytes.  Any other key is announced by a question mark, and
the colon gets a line of its own.

Tagged values and mappings with a single entry are told apart only when their first key is seen.
`isPrintable` names the trees for which this fails: those in which such a mapping or a tagged value
is the only key of a mapping, and those with a tag directly on a tagged value.

Main definitions: `Value.render` writes any tree, `Value.print?` only those that can be printed.
-/

namespace DeployManifest.Yaml

/-- How many bytes of a key fit in front of its colon. -/
def maxKeySize : Nat := 128

/-- What a node stands behind on its line. -/
inductive Behind where
  /-- Nothing: the root. -/
  | start
  /-- The dash of an item. -/
  | dash
  /-- A question mark, or a colon on a line of its own. -/
  | mark
  /-- The colon of a key. -/
  | key
  deriving DecidableEq

namespace Behind

/-- What separates a node from what stands in front of it. -/
def gap : Behind → List Char
  | .start => []
  | _ => [' ']

/-- What separates the first entry of a collection in `column` from what stands in front of it;
    behind a tag the entries start on a new line. -/
def opening (behind : Behind) (tagged : Bool) (column : Nat) : List Char :=
  if tagged || behind = .key then '\n' :: spaces column else behind.gap

/-- The column of a scalar's lines behind the first, and of the keys of a mapping, that belongs to
    a node in `column`. -/
def inner (behind : Behind) (column : Nat) : Nat :=
  if behind = .start then column else column + 2

/-- The column of the dashes of a sequence that belongs to a node in `column`. -/
def dashes (behind : Behind) (tagged : Bool) (column : Nat) : Nat :=
  match behind with
  | .start => column
  | .dash => column + 2
  | .mark => if tagged then column else column + 2
  | .key => column

end Behind

/-- The text without its last line break, or with one added. -/
def endLine (text : List Char) : List Char :=
  if text.getLast?.any isBreak then text else text ++ ['\n']

namespace Value

/-- The text of a scalar and the style it asks for. -/
def scalar? : Value → Option (String × Style)
  | .null => some ("null", .plain)
  | .bool true => some ("true", .plain)
  | .bool false => some ("false", .plain)
  | .int n => some (toString n, .plain)
  | .float x => some (x.text, .plain)
  | .string s => some (s, wantedStyle s)
  | _ => none

/-- A key on one line, without its colon, and its size; the tags around it have been written. -/
def bareKey? : Value → Option (List Char × Nat)
  | .seq [] => some (['[', ']'], 0)
  | .map [] => some (['{', '}'], 0)
  | v =>
    v.scalar?.bind fun (text, wanted) =>
      let chars := text.toList
      if chars.any isBreak then none
      else some (scalarLines (writtenStyle .oneLine wanted chars) 0 chars, text.utf8ByteSize)

/-- A key on one line, without its colon. -/
def simpleKey? (key : Value) : Option (List Char) :=
  let found := match key with
    | .tagged tag content =>
      (bareKey? content).map fun (text, size) => (writtenTag tag ++ ' ' :: text, tagSize tag + size)
    | v => bareKey? v
  (found.filter (·.2 ≤ maxKeySize)).map (·.1)

mutual

/-- The text of a node, up to the end of its last line.  `column` is the column of the collection
    it belongs to. -/
def node (behind : Behind) (tagged : Bool) (column : Nat) : Value → List Char
  | .tagged tag content =>
    behind.gap ++ writtenTag tag ++ node behind true column content
  | .seq [] => (if tagged then [' '] else behind.gap) ++ ['[', ']', '\n']
  | .map [] => (if tagged then [' '] else behind.gap) ++ ['{', '}', '\n']
  | .seq all =>
    let inside := behind.dashes tagged column
    behind.opening tagged inside ++ (items inside all).drop inside
  | .map all =>
    let inside := behind.inner column
    behind.opening tagged inside ++ (entries inside all).drop inside
  | v =>
    match v.scalar? with
    | some (text, wanted) =>
      let chars := text.toList
      let column := if behind = .start then 2 else column + 2
      (if tagged then [' '] else behind.gap) ++
        endLine (scalarLines (writtenStyle .anyLines wanted chars) column chars)
    | none => []

/-- Items on lines of their own. -/
def items (column : Nat) : List Value → List Char
  | [] => []
  | v :: rest => spaces column ++ '-' :: node .dash false column v ++ items column rest

/-- Entries on lines of their own. -/
def entries (column : Nat) : List (Value × Value) → List Char
  | [] => []
  | (k, v) :: rest =>
    let key := match simpleKey? k with
      | some text => spaces column ++ text
      | none => spaces column ++ '?' :: node .mark false column k ++ spaces column
    let behind : Behind := if (simpleKey? k).isSome then .key else .mark
    key ++ ':' :: node behind false column v ++ entries column rest

end

/-- The text of a tree. -/
def render (v : Value) : String := String.ofList (node .start false 0 v)

/-- Where a value stands with respect to the mappings that look like tags. -/
inductive Setting where
  /-- Anywhere else. -/
  | free
  /-- The only key of a mapping. -/
  | onlyKey
  /-- Directly under a tag. -/
  | underTag
  /-- The only key of a mapping directly under a tag. -/
  | onlyKeyUnderTag

mutual

/-- Whether a value can be printed where it stands. -/
def isPrintable : Setting → Value → Bool
  | setting, .tagged _ content =>
    match setting with
    | .free | .onlyKeyUnderTag => isPrintable .underTag content
    | .onlyKey | .underTag => false
  | setting, .map [(k, v)] =>
    match setting with
    | .free | .onlyKeyUnderTag => isPrintable .onlyKey k && isPrintable .free v
    | .underTag => isPrintable .onlyKeyUnderTag k && isPrintable .free v
    | .onlyKey => false
  | _, .map entries => arePrintableEntries entries
  | _, .seq items => arePrintable items
  | _, _ => true

/-- The same for the items of a sequence, each of which stands on its own. -/
def arePrintable : List Value → Bool
  | [] => true
  | v :: rest => isPrintable .free v && arePrintable rest

/-- The same for the keys and values of a mapping with several entries. -/
def arePrintableEntries : List (Value × Value) → Bool
  | [] => true
  | (k, v) :: rest => isPrintable .free k && (isPrintable .free v && arePrintableEntries rest)

end

/-- The text of a tree, if it can be printed. -/
def print? (v : Value) : Option String :=
  if v.isPrintable .free then some v.render else none

end Value
end DeployManifest.Yaml
