import DeployManifest.Text.Quoted
import DeployManifest.Text.Search
import DeployManifest.Manifest.Basic

/-!
# Images of jobs

The image that a job runs from follows from its release and a stemcell: the one the release is
pinned to, else the one of the instance group.

- `jobStemcell`: the release and stemcell of a job.
- `releaseImage`, `jobStemcellOs`: the image, and the operating system, of a job found by name.
- `addReleaseLabels`: labels every instance group with the images of its jobs, so that its pods
  are replaced when an image changes.
-/

namespace DeployManifest

/-- Something a manifest refers to that it does not contain. -/
inductive LookupError where
  | instanceGroupNotFound (instanceGroup : String)
  | jobNotFound (job instanceGroup : String)
  | releaseNotFound (release : String)
  | stemcellNotResolved (instanceGroup : String)
  deriving DecidableEq, Repr

/-- What is reported of a job whose image cannot be found out. -/
def LookupError.message : LookupError → String
  | .instanceGroupNotFound group => "instance group " ++ Text.quote group ++ " not found"
  | .jobNotFound job group =>
    "job " ++ Text.quote job ++ " not found in instance group " ++ Text.quote group
  | .releaseNotFound release => "release " ++ Text.quote release ++ " not found"
  | .stemcellNotResolved group =>
    "stemcell could not be resolved for instance group " ++ Text.quote group

/-- The release of a job and the stemcell it runs on. -/
structure JobStemcell where
  release : Release
  os : String
  version : String

/-- The tag of the image. -/
def JobStemcell.imageTag (s : JobStemcell) : String :=
  s.os ++ "-" ++ s.version ++ "-" ++ s.release.version

/-- The image of a release on a stemcell. -/
def JobStemcell.image (s : JobStemcell) : String :=
  let registry := Text.dropEndWhile (· = '/') (s.release.url.getD "").toList
  String.ofList registry ++ "/" ++ s.release.name ++ ":" ++ s.imageTag

namespace Manifest

/-- The first instance group with a name. -/
def instanceGroup? (m : Manifest) (name : String) : Option InstanceGroup :=
  m.instanceGroups.find? fun g => g.name == name

/-- The first release with a name. -/
def release? (m : Manifest) (name : String) : Option Release :=
  m.releases.find? fun r => r.name == name

/-- The first stemcell with an alias. -/
def stemcell? (m : Manifest) (name : String) : Option Stemcell :=
  m.stemcells.find? fun s => s.aliasName == name

/-- The release of a job and the stemcell it runs on in an instance group. -/
def jobStemcell (m : Manifest) (group : InstanceGroup) (job : Job) :
    Except LookupError JobStemcell :=
  match m.release? job.release with
  | none => .error (.releaseNotFound job.release)
  | some release =>
    match release.stemcell with
    | some pinned => .ok ⟨release, pinned.os, pinned.version⟩
    | none =>
      match m.stemcell? group.stemcell with
      | some stemcell => .ok ⟨release, stemcell.os, stemcell.version⟩
      | none => .error (.stemcellNotResolved group.name)

/-- The release and stemcell of a job that is given by name. -/
def namedJobStemcell (m : Manifest) (group job : String) : Except LookupError JobStemcell :=
  match m.instanceGroup? group with
  | none => .error (.instanceGroupNotFound group)
  | some found =>
    match found.job? job with
    | none => .error (.jobNotFound job group)
    | some job => m.jobStemcell found job

/-- The image a job runs from. -/
def releaseImage (m : Manifest) (group job : String) : Except LookupError String :=
  (m.namedJobStemcell group job).map JobStemcell.image

/-- The operating system a job runs on. -/
def jobStemcellOs (m : Manifest) (group job : String) : Except LookupError String :=
  (m.namedJobStemcell group job).map JobStemcell.os

/-- What the labels for releases start with. -/
def releaseLabelStart : String := "app.kubernetes.io/version-image-"

/-- The label for the release of a job. -/
def releaseLabel (m : Manifest) (group : InstanceGroup) (job : Job) :
    Except LookupError (String × String) :=
  (m.jobStemcell group job).map fun s => (releaseLabelStart ++ job.release, s.imageTag)

/-- An instance group with labels for the releases of its jobs. -/
def labelGroup (m : Manifest) (group : InstanceGroup) : Except LookupError InstanceGroup :=
  (group.jobs.mapM (m.releaseLabel group)).map fun labels =>
    group.withLabels (group.labels.insertAll labels)

/-- Labels all instance groups with the images of their jobs. -/
def addReleaseLabels (m : Manifest) : Except LookupError Manifest :=
  (m.instanceGroups.mapM m.labelGroup).map fun groups => { m with instanceGroups := groups }

/-- Gives all instance groups the update block of the deployment, as far as they have none. -/
def propagateUpdate (m : Manifest) : Manifest :=
  match m.update with
  | none => m
  | some defaults =>
    { m with instanceGroups := m.instanceGroups.map fun group =>
        { group with update := some (match group.update with
          | some update => update.fill defaults
          | none => defaults) } }

end Manifest
end DeployManifest
