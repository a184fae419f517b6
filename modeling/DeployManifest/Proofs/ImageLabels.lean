import DeployManifest.Proofs.ReleaseLabels
import DeployManifest.Proofs.ListingOrder

/-!
# Labels for images

Every instance group gets a label for the release of each of its jobs, with the tag of the image that the
job runs from.  A tag depends on the release and the group alone (`jobStemcell_eq_of_release`), so that jobs
of one release agree on their label, and what becomes of a group can be told without the loop over its jobs:
`Labels` says which label has which value.  Everything else about labelling follows from `labelGroup_eq_ok_iff`,
that a group becomes just what `Labels` says.

`labelInPlace` labels the groups of a manifest where they are.  It makes the labels of all groups before it
puts any on, so that one job whose stemcell is not known keeps the whole manifest as it was.

Main statement: `addReleaseLabels_all_or_none`.

- `Manifest.IsDue`: a label that a job of a group asks for.
- `Manifest.Labels`: a group, and the group that it becomes with its labels.
- `addReleaseLabels_eq_ok`: a manifest is labelled just if every group has its labels, and nothing else
  changes.
- `releaseImage_eq_ok_iff`, `image_of_addReleaseLabels`: the image of a job, before and behind labelling.
-/

namespace DeployManifest

/-- Steps whose answers are put together with the items give what the bare steps give, put together
    afterwards. -/
theorem mapM_map_eq_map_zipWith {ε α β γ : Type} {f : α → Except ε β} {join : α → β → γ} (items : List α) :
    items.mapM (fun x => (f x).map (join x)) = (items.mapM f).map (List.zipWith join items) := by
  induction items with
  | nil => rfl
  | cons x rest ih =>
    rw [List.mapM_cons, List.mapM_cons, ih]
    cases f x with
    | error e => rfl
    | ok y => cases rest.mapM f <;> rfl

/-- The group with further labels, which take the place of those of the same name. -/
def InstanceGroup.addLabels (g : InstanceGroup) (labels : List (String × String)) : InstanceGroup :=
  g.withLabels (g.labels.insertAll labels)

namespace Manifest

variable {m n labelled : Manifest} {g g' : InstanceGroup} {job job' : Job}
  {group name value other image : String} {labels : List (String × String)}

/-! ## The labels of one group -/

/-- The labels for the jobs of a group, one for each job. -/
def labelsOf (m : Manifest) (g : InstanceGroup) : Except LookupError (List (String × String)) :=
  g.jobs.mapM (m.releaseLabel g)

/-- Whether a label is due to one of the jobs of a group. -/
def IsDue (m : Manifest) (g : InstanceGroup) (name value : String) : Prop :=
  ∃ job ∈ g.jobs, ∃ s, m.jobStemcell g job = .ok s ∧
    name = releaseLabelStart ++ job.release ∧ value = s.imageTag

/-- Whether a group becomes another one by its labels: the stemcells of all its jobs are known, nothing
    changes but labels, and of these only the ones for the releases of its jobs. -/
structure Labels (m : Manifest) (g g' : InstanceGroup) : Prop where
  resolved : ∀ job ∈ g.jobs, ∃ s, m.jobStemcell g job = .ok s
  rest : g' = g.withLabels g'.labels
  bound : ∀ name value, g'.labels.get? name = some value ↔
    m.IsDue g name value ∨
      (∀ job ∈ g.jobs, name ≠ releaseLabelStart ++ job.release) ∧ g.labels.get? name = some value

/-- Jobs of one release run on one stemcell in a group. -/
theorem jobStemcell_eq_of_release (same : job.release = job'.release) :
    m.jobStemcell g job = m.jobStemcell g job' := by
  unfold jobStemcell
  rw [same]

theorem release_eq_of_label_eq
    (same : releaseLabelStart ++ job.release = releaseLabelStart ++ job'.release) :
    job.release = job'.release :=
  (String.append_right_inj _).mp same

/-- The jobs of a group agree on the value of a label. -/
theorem IsDue.unique (due : m.IsDue g name value) (due' : m.IsDue g name other) : value = other := by
  obtain ⟨job, -, s, known, rfl, rfl⟩ := due
  obtain ⟨job', -, s', known', same, rfl⟩ := due'
  rw [jobStemcell_eq_of_release (release_eq_of_label_eq same), known'] at known
  rw [Except.ok.inj known]

theorem releaseLabel_eq_ok_iff {label : String × String} :
    m.releaseLabel g job = .ok label ↔
      ∃ s, m.jobStemcell g job = .ok s ∧ (releaseLabelStart ++ job.release, s.imageTag) = label :=
  map_eq_ok

/-- The labels that are made for the jobs of a group are those that are due. -/
theorem mem_labels_iff (made : m.labelsOf g = .ok labels) :
    (name, value) ∈ labels ↔ m.IsDue g name value := by
  have all := mapM_eq_ok_iff.mp made
  constructor
  · intro mem
    obtain ⟨job, there, one⟩ := exists_of_mem_right all mem
    obtain ⟨s, known, same⟩ := releaseLabel_eq_ok_iff.mp one
    obtain ⟨rfl, rfl⟩ := Prod.mk.inj same
    exact ⟨job, there, s, known, rfl, rfl⟩
  · rintro ⟨job, there, s, known, rfl, rfl⟩
    obtain ⟨label, mem, one⟩ := exists_of_mem_left all there
    obtain ⟨s', known', rfl⟩ := releaseLabel_eq_ok_iff.mp one
    obtain rfl := Except.ok.inj (known.symm.trans known')
    exact mem

/-- A group gets no label but those for the releases of its jobs. -/
theorem forall_ne_labels_iff (made : m.labelsOf g = .ok labels) :
    (∀ label ∈ labels, name ≠ label.1) ↔ ∀ job ∈ g.jobs, name ≠ releaseLabelStart ++ job.release := by
  have all := mapM_eq_ok_iff.mp made
  constructor
  · intro apart job there
    obtain ⟨label, mem, one⟩ := exists_of_mem_left all there
    obtain ⟨s, -, rfl⟩ := releaseLabel_eq_ok_iff.mp one
    exact apart _ mem
  · intro apart label mem
    obtain ⟨job, there, one⟩ := exists_of_mem_right all mem
    obtain ⟨s, -, rfl⟩ := releaseLabel_eq_ok_iff.mp one
    exact apart job there

/-- Putting the labels on that were made gives a group what `Labels` says. -/
theorem labels_addLabels (made : m.labelsOf g = .ok labels) : m.Labels g (g.addLabels labels) where
  resolved job there := by
    obtain ⟨label, -, one⟩ := exists_of_mem_left (mapM_eq_ok_iff.mp made) there
    obtain ⟨s, known, -⟩ := releaseLabel_eq_ok_iff.mp one
    exact ⟨s, known⟩
  rest := rfl
  bound name value := by
    have agree : ∀ e ∈ labels, ∀ f ∈ labels, e.1 = f.1 → e.2 = f.2 := by
      rintro ⟨key, v⟩ mem ⟨_, w⟩ mem' rfl
      exact ((mem_labels_iff made).mp mem).unique ((mem_labels_iff made).mp mem')
    change (g.labels.insertAll labels).get? name = some value ↔ _
    rw [Table.get?_insertAll_eq_some_iff agree, mem_labels_iff made, forall_ne_labels_iff made]

/-- There is one way for a group to be labelled. -/
theorem Labels.unique {g'' : InstanceGroup} (labels : m.Labels g g') (labels' : m.Labels g g'') : g' = g'' := by
  have same : g'.labels = g''.labels := by
    refine Table.ext_get? fun name => Option.ext fun value => ?_
    rw [labels.bound, labels'.bound]
  rw [labels.rest, labels'.rest, same]

/-- Where the stemcells of all jobs are known, labels can be made. -/
theorem exists_labelsOf (resolved : ∀ job ∈ g.jobs, ∃ s, m.jobStemcell g job = .ok s) :
    ∃ labels, m.labelsOf g = .ok labels := by
  refine exists_mapM_eq_ok_iff.mpr fun job there => ?_
  obtain ⟨s, known⟩ := resolved job there
  exact ⟨_, releaseLabel_eq_ok_iff.mpr ⟨s, known, rfl⟩⟩

/-- A group can be labelled if the stemcells of all its jobs are known, and becomes just what its jobs ask
    for. -/
theorem labelGroup_eq_ok_iff : m.labelGroup g = .ok g' ↔ m.Labels g g' := by
  have labelled_iff : m.labelGroup g = .ok g' ↔ ∃ labels, m.labelsOf g = .ok labels ∧ g.addLabels labels = g' :=
    map_eq_ok
  rw [labelled_iff]
  constructor
  · rintro ⟨labels, made, rfl⟩
    exact labels_addLabels made
  · intro labels
    obtain ⟨found, made⟩ := exists_labelsOf labels.resolved
    exact ⟨found, made, (labels_addLabels made).unique labels⟩

/-- A group can be labelled just if the stemcell of each of its jobs is known. -/
theorem exists_labels_iff :
    (∃ g', m.Labels g g') ↔ ∀ job ∈ g.jobs, ∃ s, m.jobStemcell g job = .ok s := by
  constructor
  · rintro ⟨g', labels⟩
    exact labels.resolved
  · intro resolved
    obtain ⟨found, made⟩ := exists_labelsOf resolved
    exact ⟨_, labels_addLabels made⟩

/-! ## What stays -/

theorem Labels.name_eq (labels : m.Labels g g') : g'.name = g.name := by
  rw [labels.rest]
  rfl

theorem Labels.jobs_eq (labels : m.Labels g g') : g'.jobs = g.jobs := by
  rw [labels.rest]
  rfl

theorem Labels.jobStemcell_eq (labels : m.Labels g g') : m.jobStemcell g' = m.jobStemcell g := by
  rw [labels.rest]
  rfl

/-- Labels are due to the releases of jobs, wherever these are listed. -/
theorem isDue_reordered_iff (relisted : g.IsReordered g') : m.IsDue g' name value ↔ m.IsDue g name value := by
  obtain ⟨jobs, networks, perm, -, rfl⟩ := relisted
  unfold IsDue
  simp only [perm.mem_iff]
  rfl

/-- A group with its jobs in another order gets the same labels. -/
theorem Labels.reordered {h : InstanceGroup} (labels : m.Labels g g') (relisted : g.IsReordered h) :
    ∃ h', m.Labels h h' ∧ g'.IsReordered h' := by
  obtain ⟨jobs, networks, perm, perm', same⟩ := id relisted
  refine ⟨{ g' with jobs := jobs, networks := networks }, ⟨?_, ?_, ?_⟩, jobs, networks, ?_, ?_, rfl⟩
  · rw [same]
    exact fun job mem => labels.resolved job (perm.mem_iff.mpr mem)
  · rw [same]
    -- apart from its labels the group is the old one
    conv_lhs => rw [labels.rest]
    rfl
  · intro name value
    rw [isDue_reordered_iff relisted, same]
    change g'.labels.get? name = some value ↔ m.IsDue g name value ∨
      (∀ job ∈ jobs, _) ∧ g.labels.get? name = some value
    simp only [← perm.mem_iff]
    exact labels.bound name value
  · rwa [labels.jobs_eq]
  · rw [labels.rest]
    exact perm'

/-- A group that has its labels keeps them. -/
theorem Labels.again (labels : m.Labels g g') : m.Labels g' g' where
  resolved := by
    rw [labels.jobs_eq, labels.jobStemcell_eq]
    exact labels.resolved
  rest := rfl
  bound name value := by
    -- what labels are due is told by the jobs, which stay
    have due_iff : m.IsDue g' name value ↔ m.IsDue g name value := by
      unfold IsDue
      rw [labels.jobs_eq, labels.jobStemcell_eq]
    rw [due_iff, labels.jobs_eq]
    constructor
    · intro bound
      rcases (labels.bound name value).mp bound with due | ⟨apart, -⟩
      · exact .inl due
      · exact .inr ⟨apart, bound⟩
    · rintro (due | ⟨-, bound⟩)
      · exact (labels.bound name value).mpr (.inl due)
      · exact bound

/-! ## All groups -/

/-- A manifest is labelled group by group. -/
theorem addReleaseLabels_eq_ok :
    m.addReleaseLabels = .ok labelled ↔
      ∃ groups, List.Forall₂ m.Labels m.instanceGroups groups ∧ { m with instanceGroups := groups } = labelled := by
  unfold addReleaseLabels
  simp only [map_eq_ok, mapM_eq_ok_iff, labelGroup_eq_ok_iff]

/-- So it can be labelled just if the stemcells of all of its jobs are known. -/
theorem exists_addReleaseLabels_iff :
    (∃ labelled, m.addReleaseLabels = .ok labelled) ↔
      ∀ g ∈ m.instanceGroups, ∀ job ∈ g.jobs, ∃ s, m.jobStemcell g job = .ok s := by
  calc (∃ labelled, m.addReleaseLabels = .ok labelled)
      ↔ ∃ groups, m.instanceGroups.mapM m.labelGroup = .ok groups := by
        unfold addReleaseLabels
        cases m.instanceGroups.mapM m.labelGroup <;> simp [Except.map]
    _ ↔ ∀ g ∈ m.instanceGroups, ∃ g', m.labelGroup g = .ok g' := exists_mapM_eq_ok_iff
    _ ↔ _ := by simp only [labelGroup_eq_ok_iff, exists_labels_iff]

/-- Labels the groups of a manifest in place. -/
def labelInPlace : StateM Manifest (Except LookupError Unit) := do
  let m ← get
  match m.instanceGroups.mapM m.labelsOf with
  | .error e => return .error e
  | .ok labels =>
    modify fun m => { m with instanceGroups := m.instanceGroups.zipWith InstanceGroup.addLabels labels }
    return .ok ()

/-- In place a manifest becomes what `addReleaseLabels` says, and stays as it is where that fails. -/
theorem run_labelInPlace (m : Manifest) :
    labelInPlace.run m = match m.addReleaseLabels with
      | .error e => (.error e, m)
      | .ok labelled => (.ok (), labelled) := by
  -- first all labels are made, which may fail, and only then they are added
  have split : m.instanceGroups.mapM m.labelGroup =
      (m.instanceGroups.mapM m.labelsOf).map (m.instanceGroups.zipWith InstanceGroup.addLabels) :=
    mapM_map_eq_map_zipWith _
  have steps : labelInPlace.run m = match m.instanceGroups.mapM m.labelsOf with
      | .error e => (.error e, m)
      | .ok labels =>
        (.ok (), { m with instanceGroups := m.instanceGroups.zipWith InstanceGroup.addLabels labels }) := by
    change StateT.run (match m.instanceGroups.mapM m.labelsOf with | .error e => _ | .ok labels => _) m = _
    cases m.instanceGroups.mapM m.labelsOf <;> rfl
  unfold addReleaseLabels
  rw [steps, split]
  cases m.instanceGroups.mapM m.labelsOf <;> rfl

/-! ## Images -/

/-- The first job with a name in the first group with a name. -/
def job? (m : Manifest) (group job : String) : Option Job :=
  (m.instanceGroup? group).bind fun g => g.job? job

/-- A label of the first group with a name. -/
def groupLabel? (m : Manifest) (group name : String) : Option String :=
  (m.instanceGroup? group).bind fun g => g.labels.get? name

/-- The image of a job that is named: the group and the job are the first ones of their names. -/
theorem releaseImage_eq_ok_iff {named : String} :
    m.releaseImage group named = .ok image ↔ ∃ g job s, m.instanceGroup? group = some g ∧
      g.job? named = some job ∧ m.jobStemcell g job = .ok s ∧ s.image = image := by
  have stemcell_iff : ∀ s, m.namedJobStemcell group named = .ok s ↔ ∃ g job, m.instanceGroup? group = some g ∧
      g.job? named = some job ∧ m.jobStemcell g job = .ok s := by
    intro s
    unfold namedJobStemcell
    cases m.instanceGroup? group with
    | none => simp
    | some g =>
      dsimp only
      cases second : g.job? named <;> simp [second]
  unfold releaseImage
  simp only [map_eq_ok, stemcell_iff]
  constructor
  · rintro ⟨s, ⟨g, job, here, there, known⟩, same⟩
    exact ⟨g, job, s, here, there, known, same⟩
  · rintro ⟨g, job, s, here, there, known, same⟩
    exact ⟨s, ⟨g, job, here, there, known⟩, same⟩

theorem job?_eq_some_iff {named : String} :
    m.job? group named = some job ↔ ∃ g, m.instanceGroup? group = some g ∧ g.job? named = some job :=
  Option.bind_eq_some_iff

/-- The first group with a name is still the first one, with its labels. -/
theorem instanceGroup?_of_addReleaseLabels (done : m.addReleaseLabels = .ok labelled) :
    Option.Rel m.Labels (m.instanceGroup? group) (labelled.instanceGroup? group) := by
  obtain ⟨groups, all, rfl⟩ := addReleaseLabels_eq_ok.mp done
  refine forall₂_find? all fun g g' labels => ?_
  rw [labels.name_eq]

/-- The first group with a name has the tag of the image of each of its jobs as a label. -/
theorem groupLabel?_of_addReleaseLabels {s : JobStemcell} (done : m.addReleaseLabels = .ok labelled)
    (here : m.instanceGroup? group = some g) (there : job ∈ g.jobs) (known : m.jobStemcell g job = .ok s) :
    labelled.groupLabel? group (releaseLabelStart ++ job.release) = some s.imageTag := by
  have first : Option.Rel m.Labels (m.instanceGroup? group) (labelled.instanceGroup? group) :=
    instanceGroup?_of_addReleaseLabels done
  unfold groupLabel?
  rw [here] at first
  generalize labelled.instanceGroup? group = g'? at first ⊢
  cases first with
  | some labels => exact (labels.bound _ _).mpr (.inl ⟨job, there, s, known, rfl, rfl⟩)

/-- Where there is an image of a job, the label for its release tells the end of it. -/
theorem image_of_addReleaseLabels {named : String} (done : m.addReleaseLabels = .ok labelled)
    (found : m.releaseImage group named = .ok image) :
    ∃ job label front, m.job? group named = some job ∧
      labelled.groupLabel? group (releaseLabelStart ++ job.release) = some label ∧
      image = front ++ ":" ++ label := by
  obtain ⟨g, job, s, here, there, known, rfl⟩ := releaseImage_eq_ok_iff.mp found
  refine ⟨job, s.imageTag, _, job?_eq_some_iff.mpr ⟨g, here, there⟩, ?_, rfl⟩
  exact groupLabel?_of_addReleaseLabels done here (List.mem_of_find?_eq_some there) known

/-- Groups in which jobs are listed in another order are labelled alike. -/
theorem addReleaseLabels_reordered {groups : List InstanceGroup} (done : m.addReleaseLabels = .ok labelled)
    (relisted : List.Forall₂ InstanceGroup.IsReordered m.instanceGroups groups) :
    ∃ groups', ({ m with instanceGroups := groups } : Manifest).addReleaseLabels =
        .ok { labelled with instanceGroups := groups' } ∧
      List.Forall₂ InstanceGroup.IsReordered labelled.instanceGroups groups' := by
  obtain ⟨olds, all, rfl⟩ := addReleaseLabels_eq_ok.mp done
  -- group by group: jobs in another order make the same labels
  have both : ∃ groups', List.Forall₂ m.Labels groups groups' ∧
      List.Forall₂ InstanceGroup.IsReordered olds groups' := by
    clear done
    generalize m.instanceGroups = front at all relisted
    induction all generalizing groups with
    | nil =>
      cases relisted
      exact ⟨[], .nil, .nil⟩
    | cons labels _ ih =>
      obtain ⟨⟩ | ⟨here, others⟩ := relisted
      obtain ⟨h', labels', same⟩ := labels.reordered here
      obtain ⟨rest, all', sames⟩ := ih others
      exact ⟨h' :: rest, .cons labels' all', .cons same sames⟩
  obtain ⟨groups', all', sames⟩ := both
  refine ⟨groups', addReleaseLabels_eq_ok.mpr ⟨groups', ?_, rfl⟩, sames⟩
  exact all'.imp fun h h' labels => ⟨labels.resolved, labels.rest, labels.bound⟩

/-- Labelling what is labelled changes nothing. -/
theorem addReleaseLabels_again (done : m.addReleaseLabels = .ok labelled) :
    labelled.addReleaseLabels = .ok labelled := by
  obtain ⟨groups, all, rfl⟩ := addReleaseLabels_eq_ok.mp done
  refine addReleaseLabels_eq_ok.mpr ⟨groups, ?_, rfl⟩
  refine List.forall₂_same.mpr fun g' mem => ?_
  obtain ⟨g, -, labels⟩ := exists_of_mem_right all mem
  exact ⟨labels.again.resolved, labels.again.rest, labels.again.bound⟩

/-- A manifest can be labelled just if the release and the stemcell of every job of every group are known;
    otherwise it stays as it is.  Of a labelled manifest nothing but labels has changed, and of these what
    `Labels` says.  The order of the jobs of a group does not count, and labelling again changes nothing.  The
    image of a job that is found by name ends in the label that the group has for its release. -/
theorem addReleaseLabels_all_or_none (m : Manifest) :
    ((∃ labelled, m.addReleaseLabels = .ok labelled) ↔
      ∀ g ∈ m.instanceGroups, ∀ job ∈ g.jobs, ∃ s, m.jobStemcell g job = .ok s) ∧
    (∀ e, m.addReleaseLabels = .error e → labelInPlace.run m = (.error e, m)) ∧
    ∀ labelled, m.addReleaseLabels = .ok labelled →
      labelInPlace.run m = (.ok (), labelled) ∧
      labelled = { m with instanceGroups := labelled.instanceGroups } ∧
      List.Forall₂ m.Labels m.instanceGroups labelled.instanceGroups ∧
      (∀ groups, List.Forall₂ InstanceGroup.IsReordered m.instanceGroups groups →
        ∃ groups', ({ m with instanceGroups := groups } : Manifest).addReleaseLabels =
            .ok { labelled with instanceGroups := groups' } ∧
          List.Forall₂ InstanceGroup.IsReordered labelled.instanceGroups groups') ∧
      labelled.addReleaseLabels = .ok labelled ∧
      ∀ group named image, m.releaseImage group named = .ok image →
        ∃ job label front, m.job? group named = some job ∧
          labelled.groupLabel? group (releaseLabelStart ++ job.release) = some label ∧
          image = front ++ ":" ++ label := by
  refine ⟨exists_addReleaseLabels_iff, fun e failed => ?_, fun labelled done => ?_⟩
  · rw [run_labelInPlace, failed]
  · obtain ⟨groups, all, rfl⟩ := addReleaseLabels_eq_ok.mp done
    refine ⟨?_, rfl, all, fun groups relisted => addReleaseLabels_reordered done relisted,
      addReleaseLabels_again done, fun group named image found => image_of_addReleaseLabels done found⟩
    rw [run_labelInPlace, done]

/-! ## A group with a pinned release -/

/-- A manifest with two groups of one name, the first with two jobs of one release and one of a release that
    is pinned to a stemcell.  An old label is that of one of the releases. -/
def natsManifest : Manifest where
  __ := PlacementRules.webManifest
  instanceGroups := [
    { PlacementRules.webGroup with
      name := "nats"
      jobs := [⟨"nats", "nats", .empty, .empty, .empty⟩, ⟨"sidecar", "pinned", .empty, .empty, .empty⟩,
        ⟨"probe", "nats", .empty, .empty, .empty⟩]
      env.machine.agent.settings.labels :=
        .ofList [("app.kubernetes.io/version-image-pinned", "old"), ("zone", "z1")] },
    { PlacementRules.webGroup with name := "nats", jobs := [] }]
  releases := [⟨"nats", "1", some "docker.io/nats/", none, none⟩,
    ⟨"pinned", "7", some "docker.io/pinned", none, some ⟨"opensuse", "42"⟩⟩]

/-- The first of the groups gets a label for each of the releases, and labelling it again changes nothing.  The
    image that the sidecar runs from ends in the label of the pinned release.  A manifest without the release
    of one of its jobs stays as it is. -/
theorem addReleaseLabels_all_or_none_nats :
    (∃ labelled, natsManifest.addReleaseLabels = .ok labelled ∧
      labelInPlace.run natsManifest = (.ok (), labelled) ∧ labelled.addReleaseLabels = .ok labelled ∧
      ∃ label front, labelled.groupLabel? "nats" (releaseLabelStart ++ "pinned") = some label ∧
        "docker.io/pinned/pinned:opensuse-42-7" = front ++ ":" ++ label) ∧
    labelInPlace.run PlacementRules.webManifest = (.error (.releaseNotFound "addon"), PlacementRules.webManifest) := by
  obtain ⟨-, -, succeeds⟩ := addReleaseLabels_all_or_none natsManifest
  obtain ⟨-, fails, -⟩ := addReleaseLabels_all_or_none PlacementRules.webManifest
  obtain ⟨labelled, done⟩ : ∃ labelled, natsManifest.addReleaseLabels = .ok labelled := ⟨_, rfl⟩
  obtain ⟨in_place, -, -, -, again, images⟩ := succeeds labelled done
  obtain ⟨job, label, front, here, found, image⟩ :=
    images "nats" "sidecar" "docker.io/pinned/pinned:opensuse-42-7" rfl
  have sidecar : some ⟨"sidecar", "pinned", .empty, .empty, .empty⟩ = some job := here
  obtain rfl := Option.some.inj sidecar
  exact ⟨⟨labelled, done, in_place, again, label, front, found, image⟩, fails _ rfl⟩

end Manifest
end DeployManifest
