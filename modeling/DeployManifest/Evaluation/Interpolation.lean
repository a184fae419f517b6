import DeployManifest.Text.Quoted
import DeployManifest.Variables.Placeholder
import DeployManifest.Evaluation.Bindings

/-!
# Putting values in for placeholders

Placeholders in the strings of a tree, and in those of its keys that are strings, give way to values.
A string that is nothing but a placeholder becomes the value itself.  Within a longer string the value
has to be a scalar and contributes its text.  A placeholder without a value stays.

A dotted name that is not bound as a whole chooses a field of the value that its first part is bound
to.

`interpolate` gives the tree, and `Usage` keeps track of the variables that were used and of those
that were missing.  `interpolateChecked` fails if there are missing or unused ones where none are
expected.
-/

namespace DeployManifest

open Yaml (Value Entries)

/-- Why values cannot be put in. -/
inductive InterpolationError where
  | missingVariables (names : List String)
  | unusedVariables (names : List String)
  | nonScalarValue (name text : String)
  deriving DecidableEq, Repr

/-- What is reported when values could not be put in, with the names in order. -/
def InterpolationError.message : InterpolationError → String
  | .missingVariables names => "expected to find variables: " ++ ", ".intercalate names
  | .unusedVariables names => "expected to use variables: " ++ ", ".intercalate names
  | .nonScalarValue name text =>
    "variable " ++ Text.quote name ++ " is used inside " ++ Text.quote text ++
      " and must be a string, number or boolean"

/-- The variables that were used, and those that were asked for but missing. -/
structure Usage where
  used : NameSet
  missing : NameSet

namespace Usage

/-- Nothing has been used and nothing is missing. -/
def none : Usage := ⟨.empty, .empty⟩

/-- The variable has been used. -/
def use (usage : Usage) (name : String) : Usage := { usage with used := usage.used.add name }

/-- The name stands for nothing. -/
def miss (usage : Usage) (name : String) : Usage := { usage with missing := usage.missing.add name }

end Usage

namespace Interpolation

/-- The value at the end of a path of fields. -/
def fieldAt? (value : Value) (path : List (List Char)) : Option Value :=
  path.foldlM (fun value field => value.field? (String.ofList field)) value

/-- The value of a dotted name whose first part is bound, if the value has such a field, and that
    part. -/
def fieldOf? (bindings : Bindings) (name : List Char) : Option (Option Value × String) :=
  match Text.splitOnce? '.' name with
  | some (base, path) =>
    (bindings.get? (String.ofList base)).map fun value =>
      (fieldAt? value (Text.splitAt '.' path), String.ofList base)
  | none => none

/-- The value a name stands for. -/
def resolve (bindings : Bindings) (usage : Usage) (name : List Char) : Option Value × Usage :=
  let whole := String.ofList name
  match bindings.get? whole with
  | some value => (some value, usage.use whole)
  | none =>
    match fieldOf? bindings name with
    | some (some value, base) => (some value, usage.use base)
    | some (none, base) => (none, (usage.use base).miss whole)
    | none => (none, usage.miss whole)

/-- The text of a part of a longer string, or the name of the variable whose value has none. -/
def pieceText (bindings : Bindings) (usage : Usage) : Piece → Except String (List Char) × Usage
  | .char c => (.ok [c], usage)
  | .placeholder p =>
    match resolve bindings usage p.name with
    | (none, usage) => (.ok p.written, usage)
    | (some value, usage) =>
      match value.scalarText? with
      | some text => (.ok text.toList, usage)
      | none => (.error (String.ofList p.inner), usage)

/-- The text of the parts of a longer string, or the name of the first variable whose value has
    none. -/
def piecesText (bindings : Bindings) (usage : Usage) :
    List Piece → Except String (List Char) × Usage
  | [] => (.ok [], usage)
  | piece :: rest =>
    let (first, usage) := pieceText bindings usage piece
    let (rest, usage) := piecesText bindings usage rest
    match first, rest with
    | .error name, _ => (.error name, usage)
    | .ok _, .error name => (.error name, usage)
    | .ok first, .ok rest => (.ok (first ++ rest), usage)

/-- A string with values put in. -/
def text (bindings : Bindings) (usage : Usage) (s : String) :
    Except InterpolationError (Value × Usage) :=
  match Piece.pieces s.toList with
  | [.placeholder p] =>
    let (value?, usage) := resolve bindings usage p.name
    .ok (value?.getD (.string s), usage)
  | pieces =>
    match piecesText bindings usage pieces with
    | (.ok chars, usage) => .ok (.string (String.ofList chars), usage)
    | (.error name, _) => .error (.nonScalarValue name s)

/-- A key with values put in. -/
def key (bindings : Bindings) (usage : Usage) : Value → Except InterpolationError (Value × Usage)
  | .string s => text bindings usage s
  | k => .ok (k, usage)

mutual

/-- A tree with values put in. -/
def tree (bindings : Bindings) (usage : Usage) : Value → Except InterpolationError (Value × Usage)
  | .string s => text bindings usage s
  | .seq list =>
    match items bindings usage list with
    | .error e => .error e
    | .ok (list, usage) => .ok (.seq list, usage)
  | .map list =>
    match entries bindings usage list with
    | .error e => .error e
    | .ok (list, usage) => .ok (.map (Value.insertAll list), usage)
  | .tagged tag content =>
    match tree bindings usage content with
    | .error e => .error e
    | .ok (content, usage) => .ok (.tagged tag content, usage)
  | v => .ok (v, usage)

/-- The same for the items of a sequence, from the first to the last. -/
def items (bindings : Bindings) (usage : Usage) :
    List Value → Except InterpolationError (List Value × Usage)
  | [] => .ok ([], usage)
  | v :: rest =>
    match tree bindings usage v with
    | .error e => .error e
    | .ok (v, usage) =>
      match items bindings usage rest with
      | .error e => .error e
      | .ok (rest, usage) => .ok (v :: rest, usage)

/-- The same for the entries of a mapping, as a list: key and value of the first entry, then the rest. -/
def entries (bindings : Bindings) (usage : Usage) :
    List (Value × Value) → Except InterpolationError (List (Value × Value) × Usage)
  | [] => .ok ([], usage)
  | (k, v) :: rest =>
    match key bindings usage k with
    | .error e => .error e
    | .ok (k, usage) =>
      match tree bindings usage v with
      | .error e => .error e
      | .ok (v, usage) =>
        match entries bindings usage rest with
        | .error e => .error e
        | .ok (rest, usage) => .ok ((k, v) :: rest, usage)

end

end Interpolation

/-- What is expected of the variables. -/
structure EvaluateOptions where
  /-- Whether every placeholder must have a value. -/
  expectAllKeys : Bool
  /-- Whether every variable with a value must be used. -/
  expectAllVarsUsed : Bool
  deriving DecidableEq, Repr

/-- A tree with values put in, and the variables used and missing. -/
def interpolate (bindings : Bindings) (tree : Value) :
    Except InterpolationError (Value × Usage) :=
  Interpolation.tree bindings .none tree

/-- The names with a value that were not used. -/
def unusedNames (bindings : Bindings) (usage : Usage) : List String :=
  (NameSet.ofNames (bindings.names.filter fun name => !usage.used.contains name)).toList

/-- A tree with values put in, if there are no missing and unused variables where none are
    expected. -/
def interpolateChecked (bindings : Bindings) (options : EvaluateOptions) (tree : Value) :
    Except InterpolationError Value :=
  match interpolate bindings tree with
  | .error e => .error e
  | .ok (tree, usage) =>
    if options.expectAllKeys && !usage.missing.isEmpty then
      .error (.missingVariables usage.missing.toList)
    else if options.expectAllVarsUsed && !(unusedNames bindings usage).isEmpty then
      .error (.unusedVariables (unusedNames bindings usage))
    else .ok tree

end DeployManifest
