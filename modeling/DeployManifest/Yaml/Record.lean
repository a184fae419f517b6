import DeployManifest.Table
import DeployManifest.Yaml.Value

/-!
# Writing records

A record is written as a mapping from the names of its fields.  Most fields are left out when they
hold nothing: an absent value, an empty list, table or text, a flag that is not set.

- `Written`: the entries that a field contributes, none or one.
- `record`: the mapping that the fields make up.
- `whenPresent`, `whenSet`, `unlessBlank`, `unlessEmpty`, `unlessEmptyTable`, `unlessEmptyRecord`: the
  fields that may be left out.
- `inlined`: fields that stand among those of the record around them.
-/

namespace DeployManifest.Yaml

/-- A field of a record, or none if it is left out. -/
abbrev Written := Option (String × Value)

namespace Written

/-- A field that is never left out. -/
def always (name : String) (value : Value) : Written := some (name, value)

/-- A field that is left out if there is no value. -/
def whenPresent {α : Type} (name : String) (write : α → Value) (x : Option α) : Written :=
  x.map fun x => (name, write x)

/-- A flag that is left out if it is not set. -/
def whenSet (name : String) (flag : Bool) : Written :=
  if flag then some (name, .bool true) else none

/-- A text that is left out if it is empty. -/
def unlessBlank (name text : String) : Written :=
  if text.isEmpty then none else some (name, .string text)

/-- A list that is left out if it is empty. -/
def unlessEmpty {α : Type} (name : String) (write : α → Value) (items : List α) : Written :=
  if items.isEmpty then none else some (name, .seq (items.map write))

end Written

namespace Value

/-- A record with the given fields. -/
def record (fields : List Written) : Value :=
  .map ((fields.filterMap id).map fun (name, value) => (.string name, value))

/-- A list. -/
def list {α : Type} (write : α → Value) (items : List α) : Value := .seq (items.map write)

/-- A table. -/
def table {α : Type} (write : α → Value) (t : Table α) : Value :=
  .map (t.entries.map fun (name, x) => (.string name, write x))

/-- A number of 32 bits, as a tree. -/
def int32 (n : Int32) : Value := .int n.toInt

/-- A number of 64 bits, as a tree. -/
def int64 (n : Int64) : Value := .int n.toInt

end Value

namespace Written

/-- A table that is left out if it is empty. -/
def unlessEmptyTable {α : Type} (name : String) (write : α → Value) (t : Table α) : Written :=
  if t.isEmpty then none else some (name, .table write t)

/-- A record that is left out if all of its fields are. -/
def unlessEmptyRecord (name : String) (fields : List Written) : Written :=
  if (fields.filterMap id).isEmpty then none else some (name, .record fields)

/-- The bindings of a table as fields of the record around it. -/
def inlined {α : Type} (write : α → Value) (t : Table α) : List Written :=
  t.entries.map fun (name, x) => some (name, write x)

end Written
end DeployManifest.Yaml
