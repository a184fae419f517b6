import DeployManifest.Yaml.Record
import DeployManifest.Yaml.View

/-!
# Jobs

A job is a part of a release that runs in the instances of a group.  Its properties are free in form
but for one block, `quarks`, which is meant for the operator of the deployment.

- `OperatorProperties`: the block `quarks`, a flag and free settings.
- `JobProperties`: this block and all other properties, side by side in one mapping.
- `Job`: a job, with the links it consumes and provides.
- `Job.injected`: a job as an addon injects it.
-/

namespace DeployManifest

open Yaml (Outline Value View Written)

/-- The properties of a job that are meant for the operator. -/
structure OperatorProperties where
  /-- Whether the job was injected by an addon. -/
  isAddon : Bool
  settings : Table Value

namespace OperatorProperties

/-- A block for the operator that says nothing. -/
def empty : OperatorProperties := ⟨false, .empty⟩

/-- Reads the block for the operator.  All fields but one are settings, kept as trees. -/
def ofView? (view : View) : Option OperatorProperties := do
  let fields ← view.fields?
  return {
    isAddon := ← fields.withDefault? "is_addon" View.bool? false
    settings := ← fields.others? "is_addon" }

/-- The block for the operator as it is written: the flag, if it is set, among the settings. -/
def fields (p : OperatorProperties) : List Written :=
  .whenSet "is_addon" p.isAddon :: Written.inlined id p.settings

end OperatorProperties

/-- The properties of a job. -/
structure JobProperties where
  operator : OperatorProperties
  properties : Table Value

namespace JobProperties

/-- No properties at all. -/
def empty : JobProperties := ⟨.empty, .empty⟩

/-- Reads the properties of a job: the block for the operator, and all others as trees. -/
def ofView? (view : View) : Option JobProperties := do
  let fields ← view.fields?
  return {
    operator := ← fields.withDefault? "quarks" OperatorProperties.ofView? .empty
    properties := ← fields.others? "quarks" }

/-- The properties of a job as they are written. -/
def fields (p : JobProperties) : List Written :=
  .unlessEmptyRecord "quarks" p.operator.fields :: Written.inlined id p.properties

end JobProperties

/-- A job of an instance group, or one that an addon injects. -/
structure Job where
  name : String
  release : String
  consumes : Table Value
  provides : Table Value
  properties : JobProperties

namespace Job

/-- Reads a job, which has to have a name and a release. -/
def ofView? (view : View) : Option Job := do
  let fields ← view.fields?
  return {
    name := ← fields.required? "name" View.text?
    release := ← fields.required? "release" View.text?
    consumes := ← fields.withDefault? "consumes" (View.table? View.value?) .empty
    provides := ← fields.withDefault? "provides" (View.table? View.value?) .empty
    properties := ← fields.withDefault? "properties" JobProperties.ofView? .empty }

/-- All properties are read, those with a meaning of their own and the others. -/
def outline : Outline := .record ["name", "release", "consumes", "provides", "properties"] []

/-- A job as it is written. -/
def toValue (j : Job) : Value := .record [
  .always "name" (.string j.name),
  .always "release" (.string j.release),
  .unlessEmptyTable "consumes" id j.consumes,
  .unlessEmptyTable "provides" id j.provides,
  .unlessEmptyRecord "properties" j.properties.fields]

/-- The job marked as coming from an addon. -/
def injected (j : Job) : Job :=
  { j with properties.operator.isAddon := true }

end Job
end DeployManifest
