import DeployManifest.Yaml.View
import DeployManifest.Patch.Operation

/-!
# Ops files

An ops file is a list of operations.  Each is a mapping with the kind of the operation as its `type`,
a `path` and, to replace, a `value`; or a sequence of these three in this order.  In the mapping the
number of a field may stand for its name.  There must not be tags in an operation.

A file that is blank or null has no operations.  `readOps` reads a file.

- `readOp`: one operation, from either of the two forms.
- `readOps`: all operations of a file, or the first fault, with the number of the operation.
-/

namespace DeployManifest.Patch

open Yaml (Value View Source)

/-- Why an ops file cannot be read. -/
inductive OpsFault where
  /-- The file is no list. -/
  | unreadable
  /-- An item of the list is no operation. -/
  | badOperation (index : Nat)
  | badPath (path : String) (index : Nat) (fault : PathFault)
  deriving DecidableEq, Repr

/-- What is reported of an ops file that cannot be read. -/
def OpsFault.message : OpsFault → String
  | .unreadable => "failed to parse ops document"
  | .badOperation index => "failed to parse operation " ++ toString index
  | .badPath path index fault =>
    "invalid path " ++ Text.quote path ++ " in operation " ++ toString index ++ ": " ++
      fault.message

/-- The kinds of operations. -/
inductive OpKind where
  | replace
  | remove
  deriving DecidableEq

namespace OpKind

/-- The kind of operation that a name stands for. -/
def ofName? (name : String) : Option OpKind :=
  if name == "replace" then some .replace else if name == "remove" then some .remove else none

/-- The fields of an operation of this kind, in order. -/
def fields : OpKind → List String
  | .replace => ["path", "value"]
  | .remove => ["path"]

/-- The name that a key stands for: a text for itself and a number for the field it counts; a number
    that counts none is like a name nobody knows. -/
def fieldName? (kind : OpKind) : Value → Option String
  | .string name => some name
  | .int n => if 0 ≤ n then some (kind.fields.getD n.toNat "") else none
  | _ => none

end OpKind

/-- A kind and the fields that go with it, as an action and a path. -/
def describedOp? (kind : OpKind) (path value? : Option Value) : Option (Action × String) :=
  match kind, path, value? with
  | .replace, some (.string path), some value => some (.replace value, path)
  | .remove, some (.string path), _ => some (.remove, path)
  | _, _, _ => none

/-- The value of a field that must not be repeated; `none` if it is, `some none` if it is missing. -/
def soleField? (fields : List (String × Value)) (name : String) : Option (Option Value) :=
  match fields.filter (·.1 == name) with
  | [] => some none
  | [field] => some (some field.2)
  | _ => none

/-- The operation a mapping describes. -/
def opOfEntries? (entries : List (Value × Value)) : Option (Action × String) := do
  let kind ← ((Value.lookup? (.string "type") entries).bind Value.asString?).bind OpKind.ofName?
  let others := entries.filter fun entry => !(entry.1.same (.string "type"))
  if View.hasTagEntries others then none
  else
    let fields ← others.mapM fun (entry : Value × Value) =>
      (kind.fieldName? entry.1).map fun name => (name, entry.2)
    let path ← soleField? fields "path"
    let value ← if kind = .replace then soleField? fields "value" else some none
    describedOp? kind path value

/-- The operation a sequence describes. -/
def opOfItems? : List Value → Option (Action × String)
  | first :: rest =>
    (first.asString?.bind OpKind.ofName?).bind fun kind =>
      if View.hasTagItems rest || rest.length ≠ kind.fields.length then none
      else describedOp? kind rest[0]? rest[1]?
  | [] => none

/-- The operation a tree describes. -/
def op? : Value → Option (Action × String)
  | .map entries => opOfEntries? entries
  | .seq items => opOfItems? items
  | _ => none

/-- The operation at an index of an ops file. -/
def readOp (index : Nat) (definition : Value) : Except OpsFault Operation :=
  match op? definition with
  | none => .error (.badOperation index)
  | some (action, path) =>
    match Path.parse path with
    | .error fault => .error (.badPath path index fault)
    | .ok path => .ok ⟨action, path⟩

/-- The operations from an index of an ops file on. -/
def readOpsFrom (index : Nat) : List Value → Except OpsFault (List Operation)
  | [] => .ok []
  | definition :: rest =>
    match readOp index definition with
    | .error fault => .error fault
    | .ok operation => (readOpsFrom (index + 1) rest).map fun rest => operation :: rest

/-- The operations of an ops file. -/
def readOps (file : Source) : Except OpsFault (List Operation) :=
  if file.isBlank then .ok []
  else
    let read := (View.ofSource? file).bind (View.optional? (View.list? View.value?))
    match read with
    | none => .error .unreadable
    | some definitions? => readOpsFrom 0 (definitions?.getD [])

end DeployManifest.Patch
