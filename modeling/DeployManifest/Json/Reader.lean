import DeployManifest.Text.Utf8
import DeployManifest.Text.Search
import DeployManifest.Yaml.View
import DeployManifest.Json.Number

/-!
# Reading JSON

JSON texts are read into the same trees as YAML.  Keys must not be repeated, and collections are
nested less than `maxDepth` deep.  `read?` takes bytes, which have to be UTF-8.

- `value?`: a value and the characters behind it.
- `hasDistinctKeys`: whether no object inside of a tree has a key twice.
- `read?`: the value that a whole text is, blanks around it apart.
-/

namespace DeployManifest.Json

open Yaml (Value)

/-- How deep collections may not be nested. -/
def maxDepth : Nat := 128

/-- The text behind blanks. -/
def skipBlanks (text : List Char) : List Char :=
  text.dropWhile fun c => c = ' ' || c = '\t' || c = '\n' || c = '\r'

/-- The number that four hexadecimal digits stand for. -/
def hex? (a b c d : Char) : Option Nat := Yaml.Plain.nat? 16 [a, b, c, d]

/-- The character of an escape, and what follows.  A character outside of the first plane takes two
    escapes. -/
def escape? : List Char → Option (Char × List Char)
  | '"' :: rest => some ('"', rest)
  | '\\' :: rest => some ('\\', rest)
  | '/' :: rest => some ('/', rest)
  | 'b' :: rest => some ('\x08', rest)
  | 'f' :: rest => some ('\x0c', rest)
  | 'n' :: rest => some ('\n', rest)
  | 'r' :: rest => some ('\r', rest)
  | 't' :: rest => some ('\t', rest)
  | 'u' :: a :: b :: c :: d :: rest =>
    match hex? a b c d with
    | none => none
    | some high =>
      if high < 0xD800 || 0xE000 ≤ high then some (Char.ofNat high, rest)
      else if 0xDC00 ≤ high then none
      else
        match rest with
        | '\\' :: 'u' :: a :: b :: c :: d :: rest =>
          match hex? a b c d with
          | some low =>
            if 0xDC00 ≤ low && low < 0xE000 then
              some (Char.ofNat (0x10000 + (high - 0xD800) * 0x400 + (low - 0xDC00)), rest)
            else none
          | none => none
        | _ => none
  | _ => none

/-- The characters of a string up to its closing quote, and what follows. -/
def chars? : Nat → List Char → Option (List Char × List Char)
  | 0, _ => none
  | _ + 1, [] => none
  | _ + 1, '"' :: rest => some ([], rest)
  | fuel + 1, '\\' :: rest =>
    match escape? rest with
    | none => none
    | some (c, rest) => (chars? fuel rest).map fun (cs, rest) => (c :: cs, rest)
  | fuel + 1, c :: rest =>
    if c.toNat < 0x20 then none else (chars? fuel rest).map fun (cs, rest) => (c :: cs, rest)

/-- The string whose opening quote has been read. -/
def string? (text : List Char) : Option (String × List Char) :=
  (chars? (text.length + 1) text).map fun (cs, rest) => (String.ofList cs, rest)

/-- The word a text starts with, and what it stands for. -/
def word? (text : List Char) : Option (Value × List Char) :=
  match Text.stripStart? ['n', 'u', 'l', 'l'] text, Text.stripStart? ['t', 'r', 'u', 'e'] text,
    Text.stripStart? ['f', 'a', 'l', 's', 'e'] text with
  | some rest, _, _ => some (.null, rest)
  | _, some rest, _ => some (.bool true, rest)
  | _, _, some rest => some (.bool false, rest)
  | _, _, _ => none

mutual

/-- The value a text starts with, and what follows.  `fuel` bounds the number of steps, `depth` how
    deep collections may be nested. -/
def value? (depth : Nat) : Nat → List Char → Option (Value × List Char)
  | 0, _ => none
  | fuel + 1, text =>
    match skipBlanks text with
    | '"' :: rest => (string? rest).map fun (s, rest) => (.string s, rest)
    | '[' :: rest =>
      if depth ≤ 1 then none
      else
        match skipBlanks rest with
        | ']' :: rest => some (.seq [], rest)
        | rest => (items? (depth - 1) fuel rest).map fun (items, rest) => (.seq items, rest)
    | '\x7b' :: rest =>
      if depth ≤ 1 then none
      else
        match skipBlanks rest with
        | '\x7d' :: rest => some (.map [], rest)
        | rest => (entries? (depth - 1) fuel rest).map fun (entries, rest) => (.map entries, rest)
    | text => if (word? text).isSome then word? text else number? text

/-- The items up to a closing bracket. -/
def items? (depth : Nat) : Nat → List Char → Option (List Value × List Char)
  | 0, _ => none
  | fuel + 1, text =>
    match value? depth fuel text with
    | none => none
    | some (first, rest) =>
      match skipBlanks rest with
      | ',' :: rest => (items? depth fuel rest).map fun (items, rest) => (first :: items, rest)
      | ']' :: rest => some ([first], rest)
      | _ => none

/-- The entries up to a closing brace. -/
def entries? (depth : Nat) : Nat → List Char → Option (List (Value × Value) × List Char)
  | 0, _ => none
  | fuel + 1, text =>
    match skipBlanks text with
    | '"' :: rest =>
      match string? rest with
      | none => none
      | some (key, rest) =>
        match skipBlanks rest with
        | ':' :: rest =>
          match value? depth fuel rest with
          | none => none
          | some (value, rest) =>
            match skipBlanks rest with
            | ',' :: rest =>
              (entries? depth fuel rest).map fun (entries, rest) =>
                ((.string key, value) :: entries, rest)
            | '\x7d' :: rest => some ([(.string key, value)], rest)
            | _ => none
        | _ => none
    | _ => none

end

mutual

/-- Whether no mapping repeats a key. -/
def hasDistinctKeys : Value → Bool
  | .seq items => haveDistinctKeys items
  | .map entries => Yaml.Node.areDistinct entries && entriesHaveDistinctKeys entries
  | _ => true

/-- The same for the items of an array. -/
def haveDistinctKeys : List Value → Bool
  | [] => true
  | v :: rest => hasDistinctKeys v && haveDistinctKeys rest

/-- The same for the values of an object. -/
def entriesHaveDistinctKeys : List (Value × Value) → Bool
  | [] => true
  | (_, v) :: rest => hasDistinctKeys v && entriesHaveDistinctKeys rest

end

/-- The tree of a JSON text. -/
def read? (bytes : Text.Bytes) : Option Value := do
  let text ← Text.Utf8.decode? bytes
  let (value, rest) ← value? maxDepth (text.length + 1) text
  if (skipBlanks rest).isEmpty && hasDistinctKeys value then some value else none

end DeployManifest.Json
