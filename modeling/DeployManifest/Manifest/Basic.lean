import DeployManifest.Yaml.Canonical
import DeployManifest.Yaml.DocumentError
import DeployManifest.Manifest.InstanceGroup
import DeployManifest.Manifest.Addon
import DeployManifest.Manifest.Variable

/-!
# Deployment manifests

A manifest describes a deployment: its instance groups, the releases and stemcells they are built
from, addons and variables.

Manifests are read from YAML with `Manifest.parse` and written, in canonical form, with
`Manifest.print`.  Fields that are not known are ignored; fields that hold nothing are left
out.  Two manifests are the same (`Manifest.same`) if their trees are.

- `Features`, `Release`, `Stemcell`: the smaller records of a manifest.
- `Manifest`: the manifest itself.
- `Manifest.ofView?`, `Manifest.toValue`: from a view of a document and back to a tree.
-/

namespace DeployManifest

open Yaml (DocumentError Outline Source Value View)

/-- Switches for a whole deployment. -/
structure Features where
  convergeVariables : Bool
  randomizeAzPlacement : Option Bool
  useDnsAddresses : Option Bool
  useTmpfsJobConfig : Option Bool

namespace Features

/-- Reads the features.  Only the first of them has a default; the others may be left open. -/
def ofView? (view : View) : Option Features := do
  let fields ← view.fields?
  return {
    convergeVariables := ← fields.withDefault? "converge_variables" View.bool? false
    randomizeAzPlacement := ← fields.optional? "randomize_az_placement" View.bool?
    useDnsAddresses := ← fields.optional? "use_dns_addresses" View.bool?
    useTmpfsJobConfig := ← fields.optional? "use_tmpfs_job_config" View.bool? }

/-- What is read of the features. -/
def outline : Outline := .record
  ["converge_variables", "randomize_az_placement", "use_dns_addresses", "use_tmpfs_job_config"] []

/-- The features as they are written.  The first one is always written. -/
def toValue (f : Features) : Value := .record [
  .always "converge_variables" (.bool f.convergeVariables),
  .whenPresent "randomize_az_placement" Value.bool f.randomizeAzPlacement,
  .whenPresent "use_dns_addresses" Value.bool f.useDnsAddresses,
  .whenPresent "use_tmpfs_job_config" Value.bool f.useTmpfsJobConfig]

end Features

/-- The stemcell that a release was compiled against. -/
structure PinnedStemcell where
  os : String
  version : String
  deriving DecidableEq

namespace PinnedStemcell

/-- Reads the stemcell that a release is pinned to, which has to be given by system and version. -/
def ofView? (view : View) : Option PinnedStemcell := do
  let fields ← view.fields?
  return {
    os := ← fields.required? "os" View.text?
    version := ← fields.required? "version" View.text? }

/-- What is read of a pinned stemcell. -/
def outline : Outline := .record ["os", "version"] []

/-- A pinned stemcell as it is written. -/
def toValue (s : PinnedStemcell) : Value := .record [
  .always "os" (.string s.os),
  .always "version" (.string s.version)]

end PinnedStemcell

/-- A release: software in a version. -/
structure Release where
  name : String
  version : String
  url : Option String
  sha1 : Option String
  /-- Counts more than the stemcell of the instance group. -/
  stemcell : Option PinnedStemcell
  deriving DecidableEq

namespace Release

/-- Reads a release, which has to have a name and a version. -/
def ofView? (view : View) : Option Release := do
  let fields ← view.fields?
  return {
    name := ← fields.required? "name" View.text?
    version := ← fields.required? "version" View.text?
    url := ← fields.optional? "url" View.text?
    sha1 := ← fields.optional? "sha1" View.text?
    stemcell := ← fields.optional? "stemcell" PinnedStemcell.ofView? }

/-- What is read of a release. -/
def outline : Outline := .record
  ["name", "version", "url", "sha1"]
  [("stemcell", PinnedStemcell.outline)]

/-- A release as it is written. -/
def toValue (r : Release) : Value := .record [
  .always "name" (.string r.name),
  .always "version" (.string r.version),
  .whenPresent "url" Value.string r.url,
  .whenPresent "sha1" Value.string r.sha1,
  .whenPresent "stemcell" PinnedStemcell.toValue r.stemcell]

end Release

/-- A stemcell: the image of an operating system, known to the manifest by an alias. -/
structure Stemcell where
  aliasName : String
  os : String
  version : String
  name : Option String
  deriving DecidableEq

namespace Stemcell

/-- Reads a stemcell, which has to have an alias and a version.  A missing operating system is the empty
    text. -/
def ofView? (view : View) : Option Stemcell := do
  let fields ← view.fields?
  return {
    aliasName := ← fields.required? "alias" View.text?
    os := ← fields.withDefault? "os" View.text? ""
    version := ← fields.required? "version" View.text?
    name := ← fields.optional? "name" View.text? }

/-- What is read of a stemcell. -/
def outline : Outline := .record ["alias", "os", "version", "name"] []

/-- A stemcell as it is written. -/
def toValue (s : Stemcell) : Value := .record [
  .always "alias" (.string s.aliasName),
  .unlessBlank "os" s.os,
  .always "version" (.string s.version),
  .whenPresent "name" Value.string s.name]

end Stemcell

/-- A deployment manifest. -/
structure Manifest where
  name : String
  directorUuid : String
  instanceGroups : List InstanceGroup
  features : Option Features
  tags : Table String
  releases : List Release
  stemcells : List Stemcell
  addons : List Addon
  properties : Table Value
  declared : List Variable
  update : Option Update
  /-- Whether the addons have been applied, which must not happen again. -/
  addonsApplied : Bool

namespace Manifest

/-- Reads a manifest.  None of its fields has to be there. -/
def ofView? (view : View) : Option Manifest := do
  let fields ← view.fields?
  return {
    name := ← fields.withDefault? "name" View.text? ""
    directorUuid := ← fields.withDefault? "director_uuid" View.text? ""
    instanceGroups := ← fields.withDefault? "instance_groups" (View.list? InstanceGroup.ofView?) []
    features := ← fields.optional? "features" Features.ofView?
    tags := ← fields.withDefault? "tags" (View.table? View.text?) .empty
    releases := ← fields.withDefault? "releases" (View.list? Release.ofView?) []
    stemcells := ← fields.withDefault? "stemcells" (View.list? Stemcell.ofView?) []
    addons := ← fields.withDefault? "addons" (View.list? Addon.ofView?) []
    properties := ← fields.withDefault? "properties" (View.table? View.value?) .empty
    declared := ← fields.withDefault? "variables" (View.list? Variable.ofView?) []
    update := ← fields.optional? "update" Update.ofView?
    addonsApplied := ← fields.withDefault? "addons_applied" View.bool? false }

/-- What is read of a manifest; all other fields of a document are passed over. -/
def outline : Outline := .record
  ["name", "director_uuid", "tags", "properties", "addons_applied"]
  [("instance_groups", .items InstanceGroup.outline), ("features", Features.outline),
   ("releases", .items Release.outline), ("stemcells", .items Stemcell.outline),
   ("addons", .items Addon.outline), ("variables", .items Variable.outline),
   ("update", Update.outline)]

/-- A manifest as it is written.  The identifier of the director is written even if it is blank. -/
def toValue (m : Manifest) : Value := .record [
  .unlessBlank "name" m.name,
  .always "director_uuid" (.string m.directorUuid),
  .unlessEmpty "instance_groups" InstanceGroup.toValue m.instanceGroups,
  .whenPresent "features" Features.toValue m.features,
  .unlessEmptyTable "tags" Value.string m.tags,
  .unlessEmpty "releases" Release.toValue m.releases,
  .unlessEmpty "stemcells" Stemcell.toValue m.stemcells,
  .unlessEmpty "addons" Addon.toValue m.addons,
  .unlessEmptyTable "properties" id m.properties,
  .unlessEmpty "variables" Variable.toValue m.declared,
  .whenPresent "update" Update.toValue m.update,
  .whenSet "addons_applied" m.addonsApplied]

/-- Reads a manifest. -/
def parse (source : Source) : Except DocumentError Manifest :=
  Yaml.readOr source ((View.ofSourceWithin? outline source).bind ofView?)

/-- The canonical text of a manifest. -/
def print (m : Manifest) : Except DocumentError String := Yaml.printOr m.toValue.canonical?

/-- Whether two manifests say the same. -/
def same (m n : Manifest) : Bool := m.toValue.same n.toValue

end Manifest
end DeployManifest
