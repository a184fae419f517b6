import DeployManifest.Text.Word
import DeployManifest.Text.Search

/-!
# Which messages are logged

A filter is a list of directives, with commas between them.  A directive is a level, or a target that
is followed by an equals sign and a level.  A target alone enables everything there.

- A directive is about all targets that its own target is the start of.
- Of the directives about a message, the one with the longest target counts, of equal ones the last.
- A message is logged if its level is no more verbose than that of the directive.
- A directive with a span, in square brackets, is about messages inside of that span only.

`Filter.parse?` reads a filter, `Filter.enables` applies it.
-/

namespace DeployManifest.Logging

/-- How important a message is. -/
inductive Level where
  | error
  | warn
  | info
  | debug
  | trace
  deriving DecidableEq, Repr

namespace Level

/-- The levels, from the most urgent one to the most verbose one. -/
def all : List Level := [.error, .warn, .info, .debug, .trace]

/-- How verbose a level is. -/
def rank : Level → Nat
  | .error => 1
  | .warn => 2
  | .info => 3
  | .debug => 4
  | .trace => 5

/-- What a level is called, in upper case. -/
def text : Level → String
  | .error => "ERROR"
  | .warn => "WARN"
  | .info => "INFO"
  | .debug => "DEBUG"
  | .trace => "TRACE"

end Level

/-- The rank that digits, perhaps behind a plus sign, stand for. -/
def numberedRank? (text : List Char) : Option Nat :=
  let digits := (Text.stripStart? ['+'] text).getD text
  if digits.isEmpty || !digits.all Char.isDigit then none
  else some (digits.foldl (fun n c => n * 10 + (c.toNat - '0'.toNat)) 0)

/-- The rank of the most verbose level that a limit lets through, zero if it lets through none.  A
    limit is a number or the name of a level; if nothing is written it is that of errors. -/
def limit? (text : List Char) : Option Nat :=
  match (numberedRank? text).filter (· ≤ 5) with
  | some n => some n
  | none =>
    let name := (String.ofList text).toUpper
    if name.isEmpty then some 1
    else if name == "OFF" then some 0
    else (Level.all.find? fun level => level.text == name).map Level.rank

/-- The limit of a directive: everything, if no level is written. -/
def limitOrAll? (text : List Char) : Option Nat := if text.isEmpty then some 5 else limit? text

/-- A directive. -/
structure Directive where
  target : Option String
  /-- Whether a span is given. -/
  hasSpan : Bool
  /-- The fields a message must have. -/
  fields : List String
  /-- Whether a field is required to have a value. -/
  hasValue : Bool
  limit : Nat
  deriving DecidableEq, Repr

namespace Directive

/-- Where the reader of a directive is.  Numbers are places in the text. -/
inductive Place where
  | start
  | levelOrTarget (start : Nat)
  | span (start : Nat)
  | field (start : Nat)
  | behindFields
  | behindSpan
  | level (start : Nat)
  deriving DecidableEq

/-- What separates words. -/
def isSpace (c : Char) : Bool :=
  let n := c.toNat
  (9 ≤ n && n ≤ 13) || n = 32 || n = 0x85 || n = 0xA0 || n = 0x1680 || (0x2000 ≤ n && n ≤ 0x200A) ||
    n = 0x2028 || n = 0x2029 || n = 0x202F || n = 0x205F || n = 0x3000

/-- The text without the blanks at both ends. -/
def trim (text : List Char) : List Char := Text.dropEndWhile isSpace (text.dropWhile isSpace)

/-- The part of a text from one place to another. -/
def cut (text : List Char) (start stop : Nat) : List Char := (text.take stop).drop start

/-- A directive that also requires the field described by a text: its name, and perhaps an equals
    sign and a value. -/
def addField (d : Directive) (text : List Char) : Directive :=
  let name := text.takeWhile (· ≠ '=')
  { d with
    fields := d.fields ++ [String.ofList name]
    hasValue := d.hasValue || name.length < text.length }

/-- Reads a character at a place of a text. -/
def step? (text : List Char) (n : Nat) (c : Char) (d : Directive) :
    Place → Option (Directive × Place)
  | .start =>
    if c = '[' then some (d, .span (n + 1))
    else if c = '-' || c = ':' || c = '_' || Text.isWord c then some (d, .levelOrTarget n)
    else none
  | .levelOrTarget start =>
    let named := { d with target := some (String.ofList (cut text start n)) }
    if c = '=' then some (named, .level (n + 1))
    else if c = '[' then some (named, .span (n + 1))
    else some (d, .levelOrTarget start)
  | .span start =>
    if c = ']' then some ({ d with hasSpan := true }, .behindSpan)
    else if c = '\x7b' then some ({ d with hasSpan := start < n }, .field (n + 1))
    else some (d, .span start)
  | .field start =>
    if c = '\x7d' then
      if start < n then some (d.addField (cut text start n), .behindFields) else none
    else some (d, .field start)
  | .behindFields => if c = ']' then some (d, .behindSpan) else none
  | .behindSpan => if c = '=' then some (d, .level (n + 1)) else none
  | .level start => some (d, .level start)

/-- Reads the characters of a text from a place on. -/
def read? (text : List Char) (n : Nat) (d : Directive) (place : Place) :
    List Char → Option (Directive × Place)
  | [] => some (d, place)
  | c :: rest =>
    match step? text n c d place with
    | none => none
    | some (d, place) => read? text (n + 1) d place rest

/-- Reads a directive.  Blanks around it do not count for finding its parts, but the parts are cut from
    the text with the blanks. -/
def parse? (text : List Char) : Option Directive :=
  match read? text 0 ⟨none, false, [], false, 5⟩ .start (trim text) with
  | some (d, .levelOrTarget start) =>
    let part := text.drop start
    match limit? part with
    | some limit => some { d with limit := limit, target := none }
    | none => some { d with limit := 5, target := some (String.ofList part) }
  | some (d, .level start) => (limitOrAll? (text.drop start)).map fun limit => { d with limit := limit }
  | some (d, .behindSpan) => some d
  | _ => none

/-- Whether the directive is about messages outside of all spans. -/
def isStatic (d : Directive) : Bool := !d.hasSpan && !d.hasValue

end Directive

/-- A message, by what filters look at. -/
structure Message where
  level : Level
  target : String
  text : String
  fields : List String
  deriving DecidableEq, Repr

/-- Whether a directive is about a message. -/
def Directive.isAbout (d : Directive) (m : Message) : Bool :=
  (match d.target with
    | none => true
    | some target => m.target.startsWith target) &&
    d.fields.all m.fields.contains

/-- A filter. -/
abbrev Filter := List Directive

namespace Filter

/-- Reads a filter, if all of its directives can be read. -/
def parse? (text : String) : Option Filter :=
  ((Text.splitAt ',' text.toList).filter fun part => !part.isEmpty).mapM Directive.parse?

/-- How special a directive is: by its target, then by its fields. -/
def rank (d : Directive) : Nat × Nat :=
  (match d.target with
    | none => 0
    | some target => target.utf8ByteSize + 1, d.fields.length)

/-- Whether the second directive counts, if both are about a message and the second one stands behind
    the first. -/
def yields (a b : Directive) : Bool :=
  (rank a).1 < (rank b).1 || ((rank a).1 == (rank b).1 && (rank a).2 ≤ (rank b).2)

/-- The directive that counts for a message. -/
def directive? (filter : Filter) (m : Message) : Option Directive :=
  (filter.filter fun d => d.isStatic && d.isAbout m).foldl
    (fun best? d => match best? with
      | none => some d
      | some best => if yields best d then some d else some best) none

/-- Whether a message is logged. -/
def enables (filter : Filter) (m : Message) : Bool :=
  match filter.directive? m with
  | none => false
  | some d => m.level.rank ≤ d.limit

end Filter
end DeployManifest.Logging
