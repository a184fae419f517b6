import DeployManifest.Table
import DeployManifest.Yaml.Value

/-!
# Bindings of variables

The values of variables come from several tables.  A variable has the value that the first table with
a binding gives it.

- `Bindings.get?`: the value of a variable, from the first table that has one.
- `Bindings.names`: the names with a value, those in later tables included.
-/

namespace DeployManifest

open Yaml (Value)

/-- Tables of values, the first one first. -/
abbrev Bindings := List (Table Value)

namespace Bindings

/-- The value of a variable. -/
def get? (bindings : Bindings) (name : String) : Option Value :=
  bindings.findSome? fun table => table.get? name

/-- All names with a value, table by table. -/
def names (bindings : Bindings) : List String := bindings.flatMap Table.keys

end Bindings
end DeployManifest
