import DeployManifest.Manifest.Scheduling

/-!
# The surroundings of instances

What an instance group says about the machines or pods that its instances run in: disks, passwords
and tools, and the settings of the pods.

- `PodSettings`: labels, annotations and placement of the pods.
- `Agent`, `Machine`, `Env`: the records around the settings, from the innermost to the outermost one.
- `JobDir`, `Ipv6`: two settings of machines.

Records that are left out when they hold nothing are written by `fields`, the others by `toValue`; `empty`
is a record that holds nothing.
-/

namespace DeployManifest

open Yaml (Outline Value View Written)

/-- The settings of the pods that an instance group runs in. -/
structure PodSettings where
  annotations : Table String
  labels : Table String
  affinity : Option Affinity
  disableLogSidecar : Bool
  serviceAccountName : Option String
  automountServiceAccountToken : Option Bool
  imagePullSecrets : List ObjectReference
  tolerations : List Toleration
  ephemeralAsVolumeClaim : Bool
  jobBackoffLimit : Option Int32

namespace PodSettings

/-- The settings that nothing is said of, which are those of a group without an agent block. -/
def empty : PodSettings :=
  ⟨.empty, .empty, none, false, none, none, [], [], false, none⟩

/-- Reads settings.  Every field may be missing. -/
def ofView? (view : View) : Option PodSettings := do
  let fields ← view.fields?
  return {
    annotations := ← fields.withDefault? "annotations" (View.table? View.text?) .empty
    labels := ← fields.withDefault? "labels" (View.table? View.text?) .empty
    affinity := ← fields.optional? "affinity" Affinity.ofView?
    disableLogSidecar := ← fields.withDefault? "disable_log_sidecar" View.bool? false
    serviceAccountName := ← fields.optional? "serviceAccountName" View.text?
    automountServiceAccountToken := ← fields.optional? "automountServiceAccountToken" View.bool?
    imagePullSecrets :=
      ← fields.withDefault? "imagePullSecrets" (View.list? ObjectReference.ofView?) []
    tolerations := ← fields.withDefault? "tolerations" (View.list? Toleration.ofView?) []
    ephemeralAsVolumeClaim := ← fields.withDefault? "ephemeralAsPVC" View.bool? false
    jobBackoffLimit := ← fields.optional? "jobBackoffLimit" View.int32? }

/-- What is read of settings. -/
def outline : Outline := .record
  ["annotations", "labels", "disable_log_sidecar", "serviceAccountName",
   "automountServiceAccountToken", "ephemeralAsPVC", "jobBackoffLimit"]
  [("affinity", Affinity.outline), ("imagePullSecrets", .items ObjectReference.outline),
   ("tolerations", .items Toleration.outline)]

/-- Settings as they are written: whatever holds nothing is left out. -/
def fields (s : PodSettings) : List Written := [
  .unlessEmptyTable "annotations" Value.string s.annotations,
  .unlessEmptyTable "labels" Value.string s.labels,
  .whenPresent "affinity" Affinity.toValue s.affinity,
  .whenSet "disable_log_sidecar" s.disableLogSidecar,
  .whenPresent "serviceAccountName" Value.string s.serviceAccountName,
  .whenPresent "automountServiceAccountToken" Value.bool s.automountServiceAccountToken,
  .unlessEmpty "imagePullSecrets" ObjectReference.toValue s.imagePullSecrets,
  .unlessEmpty "tolerations" Toleration.toValue s.tolerations,
  .whenSet "ephemeralAsPVC" s.ephemeralAsVolumeClaim,
  .whenPresent "jobBackoffLimit" Value.int32 s.jobBackoffLimit]

end PodSettings

/-- The agent of an instance. -/
structure Agent where
  settings : PodSettings

namespace Agent

/-- An agent that nothing is said of. -/
def empty : Agent := ⟨.empty⟩

/-- Reads what is said of an agent. -/
def ofView? (view : View) : Option Agent := do
  let fields ← view.fields?
  return { settings := ← fields.withDefault? "settings" PodSettings.ofView? .empty }

/-- What is read of an agent: the settings of its pods. -/
def outline : Outline := .record [] [("settings", PodSettings.outline)]

/-- An agent as it is written, which is nothing at all if its settings are empty. -/
def fields (a : Agent) : List Written := [.unlessEmptyRecord "settings" a.settings.fields]

end Agent

/-- The directory of a job. -/
structure JobDir where
  tmpfs : Option Bool
  tmpfsSize : Option String

namespace JobDir

/-- Reads how the directory of jobs is kept. -/
def ofView? (view : View) : Option JobDir := do
  let fields ← view.fields?
  return {
    tmpfs := ← fields.optional? "tmpfs" View.bool?
    tmpfsSize := ← fields.optional? "tmpfs_size" View.text? }

/-- What is read of the directory of jobs. -/
def outline : Outline := .record ["tmpfs", "tmpfs_size"] []

/-- How the directory of jobs is kept, as it is written. -/
def toValue (d : JobDir) : Value := .record [
  .whenPresent "tmpfs" Value.bool d.tmpfs,
  .whenPresent "tmpfs_size" Value.string d.tmpfsSize]

end JobDir

/-- Whether addresses of the newer kind are used. -/
structure Ipv6 where
  enable : Bool

namespace Ipv6

/-- Reads whether IPv6 is enabled, which it is not unless that is said. -/
def ofView? (view : View) : Option Ipv6 := do
  let fields ← view.fields?
  return { enable := ← fields.withDefault? "enable" View.bool? false }

/-- What is read of the setting for IPv6. -/
def outline : Outline := .record ["enable"] []

/-- Left out unless it is enabled. -/
def fields (i : Ipv6) : List Written := [.whenSet "enable" i.enable]

end Ipv6

/-- The configuration of the machine that an instance runs on. -/
structure Machine where
  password : Option String
  keepRootPassword : Option String
  removeDevTools : Option Bool
  removeStaticLibraries : Option Bool
  swapSize : Option Int64
  ipv6 : Ipv6
  jobDir : Option JobDir
  agent : Agent

namespace Machine

/-- A machine that nothing is said of. -/
def empty : Machine := ⟨none, none, none, none, none, ⟨false⟩, none, .empty⟩

/-- Reads what is said of machines.  Every field may be missing. -/
def ofView? (view : View) : Option Machine := do
  let fields ← view.fields?
  return {
    password := ← fields.optional? "password" View.text?
    keepRootPassword := ← fields.optional? "keep_root_password" View.text?
    removeDevTools := ← fields.optional? "remove_dev_tools" View.bool?
    removeStaticLibraries := ← fields.optional? "remove_static_libraries" View.bool?
    swapSize := ← fields.optional? "swap_size" View.int64?
    ipv6 := ← fields.withDefault? "ipv6" Ipv6.ofView? ⟨false⟩
    jobDir := ← fields.optional? "job_dir" JobDir.ofView?
    agent := ← fields.withDefault? "agent" Agent.ofView? .empty }

/-- What is read of machines. -/
def outline : Outline := .record
  ["password", "keep_root_password", "remove_dev_tools", "remove_static_libraries", "swap_size"]
  [("ipv6", Ipv6.outline), ("job_dir", JobDir.outline), ("agent", Agent.outline)]

/-- A machine as it is written: whatever holds nothing is left out. -/
def fields (m : Machine) : List Written := [
  .whenPresent "password" Value.string m.password,
  .whenPresent "keep_root_password" Value.string m.keepRootPassword,
  .whenPresent "remove_dev_tools" Value.bool m.removeDevTools,
  .whenPresent "remove_static_libraries" Value.bool m.removeStaticLibraries,
  .whenPresent "swap_size" Value.int64 m.swapSize,
  .unlessEmptyRecord "ipv6" m.ipv6.fields,
  .whenPresent "job_dir" JobDir.toValue m.jobDir,
  .unlessEmptyRecord "agent" m.agent.fields]

end Machine

/-- The surroundings of the instances of a group. -/
structure Env where
  persistentDiskFs : Option String
  persistentDiskMountOptions : List String
  machine : Machine

namespace Env

/-- Surroundings that nothing is said of. -/
def empty : Env := ⟨none, [], .empty⟩

/-- Reads the surroundings of instances. -/
def ofView? (view : View) : Option Env := do
  let fields ← view.fields?
  return {
    persistentDiskFs := ← fields.optional? "persistent_disk_fs" View.text?
    persistentDiskMountOptions :=
      ← fields.withDefault? "persistent_disk_mount_options" (View.list? View.text?) []
    machine := ← fields.withDefault? "bosh" Machine.ofView? .empty }

/-- What is read of the surroundings of instances. -/
def outline : Outline := .record
  ["persistent_disk_fs", "persistent_disk_mount_options"]
  [("bosh", Machine.outline)]

/-- The surroundings of instances as they are written. -/
def fields (e : Env) : List Written := [
  .whenPresent "persistent_disk_fs" Value.string e.persistentDiskFs,
  .unlessEmpty "persistent_disk_mount_options" Value.string e.persistentDiskMountOptions,
  .unlessEmptyRecord "bosh" e.machine.fields]

end Env
end DeployManifest
