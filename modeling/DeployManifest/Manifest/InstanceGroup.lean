import DeployManifest.Manifest.Update
import DeployManifest.Manifest.Job
import DeployManifest.Manifest.Lifecycle
import DeployManifest.Manifest.Agent

/-!
# Instance groups

An instance group is a set of equal instances that run the same jobs.

- `Resources`, `Network`, `Migration`: the smaller records of a group.
- `InstanceGroup.job?`: the job of a name.
- `InstanceGroup.labels`, `InstanceGroup.withLabels`: the labels that its pods get, deep inside of its
  surroundings.
-/

namespace DeployManifest

open Yaml (Outline Value View)

/-- What an instance needs of a machine. -/
structure Resources where
  cpu : Int64
  ram : Int64
  ephemeralDiskSize : Int64

namespace Resources

/-- Reads the size of the machines, of which everything has to be given. -/
def ofView? (view : View) : Option Resources := do
  let fields ← view.fields?
  return {
    cpu := ← fields.required? "cpu" View.int64?
    ram := ← fields.required? "ram" View.int64?
    ephemeralDiskSize := ← fields.required? "ephemeral_disk_size" View.int64? }

/-- What is read of the size of machines. -/
def outline : Outline := .record ["cpu", "ram", "ephemeral_disk_size"] []

/-- The size of machines as it is written. -/
def toValue (r : Resources) : Value := .record [
  .always "cpu" (.int64 r.cpu),
  .always "ram" (.int64 r.ram),
  .always "ephemeral_disk_size" (.int64 r.ephemeralDiskSize)]

end Resources

/-- A network that instances are attached to. -/
structure Network where
  name : String
  staticIps : List String
  /-- What the network is the first choice for. -/
  defaults : List String

namespace Network

/-- Reads a network of a group, which has to have a name. -/
def ofView? (view : View) : Option Network := do
  let fields ← view.fields?
  return {
    name := ← fields.required? "name" View.text?
    staticIps := ← fields.withDefault? "static_ips" (View.list? View.text?) []
    defaults := ← fields.withDefault? "default" (View.list? View.text?) [] }

/-- What is read of a network. -/
def outline : Outline := .record ["name", "static_ips", "default"] []

/-- A network as it is written. -/
def toValue (n : Network) : Value := .record [
  .always "name" (.string n.name),
  .unlessEmpty "static_ips" Value.string n.staticIps,
  .unlessEmpty "default" Value.string n.defaults]

end Network

/-- An earlier instance group whose instances were taken over. -/
structure Migration where
  name : String
  az : Option String

namespace Migration

/-- Reads the group that a group was made from. -/
def ofView? (view : View) : Option Migration := do
  let fields ← view.fields?
  return {
    name := ← fields.required? "name" View.text?
    az := ← fields.optional? "az" View.text? }

/-- What is read of an earlier group. -/
def outline : Outline := .record ["name", "az"] []

/-- An earlier group as it is written. -/
def toValue (m : Migration) : Value := .record [
  .always "name" (.string m.name),
  .whenPresent "az" Value.string m.az]

end Migration

/-- A set of instances that run the same jobs on the same stemcell. -/
structure InstanceGroup where
  name : String
  instances : Int32
  azs : List String
  jobs : List Job
  vmType : Option String
  vmExtensions : List String
  vmResources : Option Resources
  /-- The alias of a stemcell. -/
  stemcell : String
  persistentDisk : Option Int64
  persistentDiskType : Option String
  networks : List Network
  update : Option Update
  migratedFrom : List Migration
  lifecycle : Lifecycle
  properties : Table Value
  env : Env

namespace InstanceGroup

/-- Reads a group.  Only its name has to be there. -/
def ofView? (view : View) : Option InstanceGroup := do
  let fields ← view.fields?
  return {
    name := ← fields.required? "name" View.text?
    instances := ← fields.withDefault? "instances" View.int32? 0
    azs := ← fields.withDefault? "azs" (View.list? View.text?) []
    jobs := ← fields.withDefault? "jobs" (View.list? Job.ofView?) []
    vmType := ← fields.optional? "vm_type" View.text?
    vmExtensions := ← fields.withDefault? "vm_extensions" (View.list? View.text?) []
    vmResources := ← fields.optional? "vm_resources" Resources.ofView?
    stemcell := ← fields.withDefault? "stemcell" View.text? ""
    persistentDisk := ← fields.optional? "persistent_disk" View.int64?
    persistentDiskType := ← fields.optional? "persistent_disk_type" View.text?
    networks := ← fields.withDefault? "networks" (View.list? Network.ofView?) []
    update := ← fields.optional? "update" Update.ofView?
    migratedFrom := ← fields.withDefault? "migrated_from" (View.list? Migration.ofView?) []
    lifecycle := ← fields.withDefault? "lifecycle" Lifecycle.ofView? .unspecified
    properties := ← fields.withDefault? "properties" (View.table? View.value?) .empty
    env := ← fields.withDefault? "env" Env.ofView? .empty }

/-- What is read of a group. -/
def outline : Outline := .record
  ["name", "instances", "azs", "vm_type", "vm_extensions", "stemcell", "persistent_disk",
   "persistent_disk_type", "lifecycle", "properties"]
  [("jobs", .items Job.outline), ("vm_resources", Resources.outline),
   ("networks", .items Network.outline), ("update", Update.outline),
   ("migrated_from", .items Migration.outline), ("env", Env.outline)]

/-- A group as it is written. -/
def toValue (g : InstanceGroup) : Value := .record [
  .always "name" (.string g.name),
  .always "instances" (.int32 g.instances),
  .unlessEmpty "azs" Value.string g.azs,
  .always "jobs" (.list Job.toValue g.jobs),
  .whenPresent "vm_type" Value.string g.vmType,
  .unlessEmpty "vm_extensions" Value.string g.vmExtensions,
  .whenPresent "vm_resources" Resources.toValue g.vmResources,
  .always "stemcell" (.string g.stemcell),
  .whenPresent "persistent_disk" Value.int64 g.persistentDisk,
  .whenPresent "persistent_disk_type" Value.string g.persistentDiskType,
  .unlessEmpty "networks" Network.toValue g.networks,
  .whenPresent "update" Update.toValue g.update,
  .unlessEmpty "migrated_from" Migration.toValue g.migratedFrom,
  if g.lifecycle = .unspecified then none else .always "lifecycle" g.lifecycle.toValue,
  .unlessEmptyTable "properties" id g.properties,
  .unlessEmptyRecord "env" g.env.fields]

/-- The first job with a name. -/
def job? (g : InstanceGroup) (name : String) : Option Job := g.jobs.find? fun j => j.name == name

/-- The labels of the pods of the group. -/
def labels (g : InstanceGroup) : Table String := g.env.machine.agent.settings.labels

/-- The group with other labels. -/
def withLabels (g : InstanceGroup) (labels : Table String) : InstanceGroup :=
  { g with env.machine.agent.settings.labels := labels }

end InstanceGroup
end DeployManifest
