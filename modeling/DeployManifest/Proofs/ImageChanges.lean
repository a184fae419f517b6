import DeployManifest.Proofs.ImageLabels

/-!
# Labels of images that change

The pods of a group are replaced when one of its labels changes, and a label is the tag of an image: the
stemcell and the version of the release.  An image is more than its tag, as the registry that the release comes
from stands in front of it (`JobStemcell.image_eq`).  `Runs` says from which image a job runs in a manifest, and
which label the group of the job gets for it.

Main statement: `image_changes_iff`.  As long as the registry stays, the label changes with the image; where the
label stays, the image changes with the registry, and nothing tells the pods so (`not_forall_label_changes`).
-/

namespace DeployManifest

/-- The registry that a release comes from. -/
def Release.registry (r : Release) : String :=
  String.ofList (Text.dropEndWhile (· = '/') (r.url.getD "").toList)

theorem JobStemcell.image_eq (s : JobStemcell) :
    s.image = s.release.registry ++ "/" ++ s.release.name ++ ":" ++ s.imageTag := rfl

namespace Manifest

variable {m n labelled labelled' : Manifest} {g : InstanceGroup} {job job' : Job}
  {group named release image image' label label' : String} {s : JobStemcell}

/-- The registry that the first release with a name comes from. -/
def registryOf? (m : Manifest) (release : String) : Option String := (m.release? release).map Release.registry

/-- Whether a job of a release runs from an image, in a manifest that can be labelled, and what the label for
    that release then is. -/
structure Runs (m : Manifest) (group named release image label : String) : Prop where
  job : ∃ job, m.job? group named = some job ∧ job.release = release
  image : m.releaseImage group named = .ok image
  label : ∃ labelled, m.addReleaseLabels = .ok labelled ∧
    labelled.groupLabel? group (releaseLabelStart ++ release) = some label

/-- The release of a stemcell is the first one with the name that the job gives. -/
theorem release?_of_jobStemcell (known : m.jobStemcell g job = .ok s) :
    m.release? job.release = some s.release := by
  unfold jobStemcell at known
  split at known
  · nomatch known
  · next found =>
    split at known
    · rw [found, ← Except.ok.inj known]
    · split at known
      · rw [found, ← Except.ok.inj known]
      · nomatch known

theorem name_of_release? {r : Release} (found : m.release? release = some r) : r.name = release := by
  simpa using List.find?_some found

/-- Every job of a manifest that can be labelled runs from an image, and its group gets a label for it. -/
theorem exists_runs (done : m.addReleaseLabels = .ok labelled) (found : m.job? group named = some job) :
    ∃ image label, m.Runs group named job.release image label ∧
      ∃ registry, m.registryOf? job.release = some registry ∧
        image = registry ++ "/" ++ job.release ++ ":" ++ label := by
  obtain ⟨g, here, there⟩ := job?_eq_some_iff.mp found
  have mem : job ∈ g.jobs := List.mem_of_find?_eq_some there
  obtain ⟨s, known⟩ := exists_addReleaseLabels_iff.mp ⟨labelled, done⟩ g (List.mem_of_find?_eq_some here) job mem
  have release := release?_of_jobStemcell known
  refine ⟨s.image, s.imageTag, ⟨⟨job, found, rfl⟩, ?_, ⟨labelled, done, ?_⟩⟩, s.release.registry, ?_, ?_⟩
  · exact releaseImage_eq_ok_iff.mpr ⟨g, job, s, here, there, known, rfl⟩
  · exact groupLabel?_of_addReleaseLabels done here mem known
  · rw [registryOf?, release, Option.map_some]
  · rw [s.image_eq, name_of_release? release]

/-- Two manifests that run a job of the same release from images.  If the release comes from the same registry in
    both, the images differ just if the labels do.  If the labels are the same, the images differ just if the
    registries do. -/
theorem image_changes_iff (done : m.addReleaseLabels = .ok labelled) (done' : n.addReleaseLabels = .ok labelled')
    (found : m.job? group named = some job) (found' : n.job? group named = some job')
    (same : job.release = job'.release) :
    ∃ image image' label label', m.Runs group named job.release image label ∧
      n.Runs group named job.release image' label' ∧
      (m.registryOf? job.release = n.registryOf? job.release → (image ≠ image' ↔ label ≠ label')) ∧
      (label = label' → (image ≠ image' ↔ m.registryOf? job.release ≠ n.registryOf? job.release)) := by
  obtain ⟨image, label, runs, registry, here, shape⟩ := exists_runs done found
  obtain ⟨image', label', runs', registry', there, shape'⟩ := exists_runs done' found'
  rw [← same] at runs' there shape'
  -- an image is made up of the registry, a part that both have in common, and the label
  refine ⟨image, image', label, label', runs, runs', ?_, ?_⟩
  · rw [here, there, shape, shape']
    rintro ⟨⟩
    rw [ne_eq, String.append_right_inj]
  · rw [here, there, shape, shape']
    rintro rfl
    rw [ne_eq, String.append_left_inj, String.append_left_inj, String.append_left_inj, String.append_left_inj,
      ne_eq, Option.some.injEq]

/-! ## A release that moves -/

/-- The manifest with the release `nats` in a version, from a registry. -/
def withNats (url version : String) : Manifest :=
  { natsManifest with releases := ⟨"nats", version, some url, none, none⟩ :: natsManifest.releases }

/-- With another version both the image and the label change. -/
theorem image_changes_iff_upgraded :
    ∃ image image' label label', (withNats "docker.io/one/" "1").Runs "nats" "probe" "nats" image label ∧
      (withNats "docker.io/one" "2").Runs "nats" "probe" "nats" image' label' ∧ (image ≠ image' ↔ label ≠ label') := by
  obtain ⟨labelled, done⟩ : ∃ labelled, (withNats "docker.io/one/" "1").addReleaseLabels = .ok labelled := ⟨_, rfl⟩
  obtain ⟨labelled', done'⟩ : ∃ labelled, (withNats "docker.io/one" "2").addReleaseLabels = .ok labelled := ⟨_, rfl⟩
  have here : (withNats "docker.io/one/" "1").job? "nats" "probe" = some ⟨"probe", "nats", .empty, .empty, .empty⟩ :=
    rfl
  have there : (withNats "docker.io/one" "2").job? "nats" "probe" = some ⟨"probe", "nats", .empty, .empty, .empty⟩ :=
    rfl
  obtain ⟨image, image', label, label', runs, runs', changes, -⟩ := image_changes_iff done done' here there rfl
  exact ⟨image, image', label, label', runs, runs', changes rfl⟩

/-- With another registry the image changes, and the label does not. -/
theorem not_forall_label_changes :
    ¬ ∀ (m n : Manifest) (group named release image image' label label' : String),
      m.Runs group named release image label → n.Runs group named release image' label' →
        image ≠ image' → label ≠ label' := by
  intro changes
  have runs : (withNats "docker.io/one" "1").Runs "nats" "nats" "nats" "docker.io/one/nats:jammy-2-1" "jammy-2-1" :=
    ⟨⟨_, rfl, rfl⟩, rfl, _, rfl, rfl⟩
  have runs' : (withNats "docker.io/two" "1").Runs "nats" "nats" "nats" "docker.io/two/nats:jammy-2-1" "jammy-2-1" :=
    ⟨⟨_, rfl, rfl⟩, rfl, _, rfl, rfl⟩
  exact changes _ _ _ _ _ _ _ _ _ runs runs' (by decide) rfl

end Manifest
end DeployManifest
