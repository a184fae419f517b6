import DeployManifest.Manifest.Job
import DeployManifest.Manifest.Lifecycle

/-!
# Addons

An addon is a list of jobs that are injected into instance groups, and rules that say which.

- `PlacementRules`: which groups are meant, as a conjunction of lists.
- `Addon`: the jobs, the rules for the groups they go into and for those that are left out.

Each record comes with `ofView?`, which reads it, `outline`, which says what of a document is looked at for
that, and `toValue`, which writes it.
-/

namespace DeployManifest

open Yaml (Outline Value View)

/-- The name of a job and of the release it is part of. -/
structure JobName where
  name : String
  release : String
  deriving DecidableEq

namespace JobName

/-- Reads the name of a job together with its release, both of which have to be there. -/
def ofView? (view : View) : Option JobName := do
  let fields ← view.fields?
  return {
    name := ← fields.required? "name" View.text?
    release := ← fields.required? "release" View.text? }

/-- What is read of the name of a job. -/
def outline : Outline := .record ["name", "release"] []

/-- The name of a job as it is written. -/
def toValue (n : JobName) : Value := .record [
  .always "name" (.string n.name),
  .always "release" (.string n.release)]

end JobName

/-- The operating system of a stemcell. -/
structure StemcellOs where
  os : String
  deriving DecidableEq

namespace StemcellOs

/-- Reads an operating system, which has to have a name. -/
def ofView? (view : View) : Option StemcellOs := do
  let fields ← view.fields?
  return { os := ← fields.required? "os" View.text? }

/-- What is read of an operating system. -/
def outline : Outline := .record ["os"] []

/-- An operating system as it is written. -/
def toValue (s : StemcellOs) : Value := .record [.always "os" (.string s.os)]

end StemcellOs

/-- Rules that choose instance groups.  A rule that is left open chooses all. -/
structure PlacementRules where
  stemcell : List StemcellOs
  deployments : List String
  jobs : List JobName
  instanceGroups : List String
  networks : List String
  teams : List String
  lifecycle : Option Lifecycle
  deriving DecidableEq

namespace PlacementRules

/-- The jobs may also be called releases, but there must not be both. -/
def ofView? (view : View) : Option PlacementRules := do
  let found ← view.fields?
  let fields := found.renamed "release" "jobs"
  return {
    stemcell := ← fields.withDefault? "stemcell" (View.list? StemcellOs.ofView?) []
    deployments := ← fields.withDefault? "deployments" (View.list? View.text?) []
    jobs := ← fields.withDefault? "jobs" (View.list? JobName.ofView?) []
    instanceGroups := ← fields.withDefault? "instance_groups" (View.list? View.text?) []
    networks := ← fields.withDefault? "networks" (View.list? View.text?) []
    teams := ← fields.withDefault? "teams" (View.list? View.text?) []
    lifecycle := ← fields.optional? "lifecycle" Lifecycle.ofView? }

/-- What is read of rules.  The list of jobs has two names, so both are looked at. -/
def outline : Outline := .record
  ["deployments", "instance_groups", "networks", "teams", "lifecycle"]
  [("stemcell", .items StemcellOs.outline), ("jobs", .items JobName.outline),
   ("release", .items JobName.outline)]

/-- Rules as they are written: those that are not given are left out. -/
def toValue (r : PlacementRules) : Value := .record [
  .unlessEmpty "stemcell" StemcellOs.toValue r.stemcell,
  .unlessEmpty "deployments" Value.string r.deployments,
  .unlessEmpty "jobs" JobName.toValue r.jobs,
  .unlessEmpty "instance_groups" Value.string r.instanceGroups,
  .unlessEmpty "networks" Value.string r.networks,
  .unlessEmpty "teams" Value.string r.teams,
  .whenPresent "lifecycle" Lifecycle.toValue r.lifecycle]

end PlacementRules

/-- Jobs that are injected, and the rules that choose the groups for them. -/
structure Addon where
  name : String
  jobs : List Job
  /-- Which groups the jobs are injected into, all unless given. -/
  included : Option PlacementRules
  /-- Which groups are left out, none unless given. -/
  excluded : Option PlacementRules

namespace Addon

/-- Reads an addon, which has to have a name. -/
def ofView? (view : View) : Option Addon := do
  let fields ← view.fields?
  return {
    name := ← fields.required? "name" View.text?
    jobs := ← fields.withDefault? "jobs" (View.list? Job.ofView?) []
    included := ← fields.optional? "include" PlacementRules.ofView?
    excluded := ← fields.optional? "exclude" PlacementRules.ofView? }

/-- What is read of an addon. -/
def outline : Outline := .record
  ["name"]
  [("jobs", .items Job.outline), ("include", PlacementRules.outline),
   ("exclude", PlacementRules.outline)]

/-- An addon as it is written.  Its jobs are written even if there are none. -/
def toValue (a : Addon) : Value := .record [
  .always "name" (.string a.name),
  .always "jobs" (.list Job.toValue a.jobs),
  .whenPresent "include" PlacementRules.toValue a.included,
  .whenPresent "exclude" PlacementRules.toValue a.excluded]

end Addon
end DeployManifest
