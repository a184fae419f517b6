import DeployManifest.Proofs.PlacementDimensions

/-!
# The order in which things are listed

Rules are lists of allowed values, and a group lists its jobs and networks; the deployment lists its teams.
Six of the seven dimensions look at such lists for their members alone, so that the order in which they are
listed plays no part (`allows_reordered_iff`).

The stemcells are looked for in one job after another, and the search ends where a job decides: it runs on
a listed system, or its stemcell is not known (`Decides`).  Where all jobs that decide agree, the first of
them says what all of them say (`exists_reaches_iff`).  A group that has jobs of both kinds is torn between
them (`IsTorn`): whichever stands first decides, and there are arrangements of both outcomes.

Main statement: `isMatch_reordered_iff`.

- `PlacementRules.IsReordered`, `InstanceGroup.IsReordered`: rules and groups in another order.
- `Decides`, `exists_reaches_iff`: the jobs that decide, and what the first of them says.
- `IsTorn`: groups for which the order decides.
-/

namespace DeployManifest

/-! ## Answers that may be missing -/

section

variable {ε : Type} {x y : Except ε Bool}

/-- Two answers are the same if they fail alike and say yes alike. -/
theorem eq_of_ok_true_iff (fails : ∀ e, x = .error e ↔ y = .error e) (holds : x = .ok true ↔ y = .ok true) :
    x = y := by
  cases x with
  | error e => exact ((fails e).mp rfl).symm
  | ok said =>
    cases y with
    | error e => nomatch (fails e).mpr rfl
    | ok other => cases said <;> cases other <;> simp at holds ⊢

/-- The same, but for why there is no answer. -/
theorem toOption_eq_of_ok_true_iff (fails : (∃ e, x = .error e) ↔ ∃ e, y = .error e)
    (holds : x = .ok true ↔ y = .ok true) : x.toOption = y.toOption := by
  cases x with
  | error e =>
    obtain ⟨e', rfl⟩ := fails.mp ⟨e, rfl⟩
    rfl
  | ok said =>
    cases y with
    | error e =>
      obtain ⟨_, failed⟩ := fails.mpr ⟨e, rfl⟩
      nomatch failed
    | ok other => cases said <;> cases other <;> simp at holds ⊢

end

/-! ## Lists in another order -/

/-- Whether two groups differ only in the order of their jobs and networks. -/
def InstanceGroup.IsReordered (group other : InstanceGroup) : Prop :=
  ∃ jobs networks, group.jobs.Perm jobs ∧ group.networks.Perm networks ∧
    other = { group with jobs := jobs, networks := networks }

theorem InstanceGroup.isReordered_reverse (group : InstanceGroup) :
    group.IsReordered { group with jobs := group.jobs.reverse } :=
  ⟨_, group.networks, (List.reverse_perm _).symm, .refl _, rfl⟩

/-- Whether two contexts differ only in the order of their teams. -/
structure PlacementContext.IsReordered (context other : PlacementContext) : Prop where
  deploymentName : context.deploymentName = other.deploymentName
  teams : context.teams.Perm other.teams

theorem PlacementContext.IsReordered.refl (context : PlacementContext) : context.IsReordered context :=
  ⟨rfl, .refl _⟩

namespace PlacementRules

variable {rules rules' : PlacementRules} {m : Manifest} {context context' : PlacementContext}
  {group group' : InstanceGroup} {systems systems' : List StemcellOs} {jobs : List Job} {job : Job}

/-- Whether rules differ only in the order in which they list what they allow. -/
structure IsReordered (rules other : PlacementRules) : Prop where
  stemcell : rules.stemcell.Perm other.stemcell
  deployments : rules.deployments.Perm other.deployments
  jobs : rules.jobs.Perm other.jobs
  instanceGroups : rules.instanceGroups.Perm other.instanceGroups
  networks : rules.networks.Perm other.networks
  teams : rules.teams.Perm other.teams
  lifecycle : rules.lifecycle = other.lifecycle

theorem IsReordered.refl (rules : PlacementRules) : rules.IsReordered rules :=
  ⟨.refl _, .refl _, .refl _, .refl _, .refl _, .refl _, rfl⟩

/-! ## Jobs that decide -/

/-- Whether a job runs on one of some systems. -/
def RunsOn (systems : List StemcellOs) (m : Manifest) (group : InstanceGroup) (job : Job) : Prop :=
  ∃ found, m.jobStemcell group job = .ok found ∧ IsListed systems found

/-- Whether it is not known which stemcell a job runs on. -/
def IsUnknown (m : Manifest) (group : InstanceGroup) (job : Job) : Prop :=
  ∃ e, m.jobStemcell group job = .error e

/-- Whether a search for a job that runs on one of some systems ends with a job. -/
def Decides (systems : List StemcellOs) (m : Manifest) (group : InstanceGroup) (job : Job) : Prop :=
  RunsOn systems m group job ∨ IsUnknown m group job

/-- Whether a group has both a job that runs on one of the listed systems and one of which that is not
    known. -/
def IsTorn (rules : PlacementRules) (m : Manifest) (group : InstanceGroup) : Prop :=
  (∃ job ∈ group.jobs, RunsOn rules.stemcell m group job) ∧ ∃ job ∈ group.jobs, IsUnknown m group job

theorem Reaches.mem (reaches : Reaches systems m group jobs job) : job ∈ jobs := by
  induction reaches with
  | here first rest => exact List.mem_cons_self
  | behind _ _ _ ih => exact List.mem_cons_of_mem _ ih

/-- A search comes to a job that decides if there is one. -/
theorem exists_reaches_of_decides (mem : job ∈ jobs) (decides : Decides systems m group job) :
    ∃ first, Reaches systems m group jobs first ∧ Decides systems m group first := by
  induction jobs with
  | nil => nomatch mem
  | cons head rest ih =>
    by_cases here : Decides systems m group head
    · exact ⟨head, .here head rest, here⟩
    · obtain ⟨not_running, not_unknown⟩ := not_or.mp here
      -- a job that does not decide runs on another system, and is passed by
      cases known : m.jobStemcell group head with
      | error e => exact absurd ⟨e, known⟩ not_unknown
      | ok found =>
        have unlisted : ¬ IsListed systems found := fun listed => not_running ⟨found, known, listed⟩
        have later : job ∈ rest := by
          rcases List.mem_cons.mp mem with rfl | later
          · exact absurd decides here
          · exact later
        obtain ⟨first, reaches, first_decides⟩ := ih later
        exact ⟨first, .behind known unlisted reaches, first_decides⟩

/-- Where the jobs that decide are all of one of two kinds, the search comes to one of a kind just if there
    is one. -/
theorem exists_reaches_iff {P Q : Job → Prop} (either : ∀ job, Decides systems m group job ↔ P job ∨ Q job)
    (apart : ¬ ((∃ job ∈ jobs, P job) ∧ ∃ job ∈ jobs, Q job)) :
    (∃ job, Reaches systems m group jobs job ∧ P job) ↔ ∃ job ∈ jobs, P job := by
  constructor
  · rintro ⟨job, reaches, holds⟩
    exact ⟨job, reaches.mem, holds⟩
  · rintro ⟨job, mem, holds⟩
    obtain ⟨first, reaches, decides⟩ := exists_reaches_of_decides mem ((either job).mpr (.inl holds))
    rcases (either first).mp decides with same | other
    · exact ⟨first, reaches, same⟩
    · exact absurd ⟨⟨job, mem, holds⟩, first, reaches.mem, other⟩ apart

/-- The stemcells of a group that is not torn fail if any of its jobs is not known. -/
theorem exists_fails_iff (whole : ¬ rules.IsTorn m group) :
    (∃ e, rules.Fails m group e) ↔ rules.stemcell ≠ [] ∧ ∃ job ∈ group.jobs, IsUnknown m group job := by
  rw [← exists_reaches_iff (fun _ => or_comm) fun both => whole both.symm]
  constructor
  · rintro ⟨e, some_listed, job, reaches, unknown⟩
    exact ⟨some_listed, job, reaches, e, unknown⟩
  · rintro ⟨some_listed, job, reaches, e, unknown⟩
    exact ⟨e, some_listed, job, reaches, unknown⟩

/-- The stemcells allow a group that is not torn if any of its jobs runs on a listed system. -/
theorem allows_stemcell_iff (whole : ¬ rules.IsTorn m group) :
    rules.Allows m context group .stemcell ↔
      rules.stemcell = [] ∨ ∃ job ∈ group.jobs, RunsOn rules.stemcell m group job := by
  rw [← exists_reaches_iff (fun _ => Iff.rfl) whole]
  exact Iff.rfl

/-- What a search comes to depends on which systems are listed, and on the stemcells of the jobs. -/
theorem Reaches.congr (listed : ∀ found, IsListed systems found ↔ IsListed systems' found)
    (stemcells : ∀ job, m.jobStemcell group' job = m.jobStemcell group job)
    (reaches : Reaches systems m group jobs job) : Reaches systems' m group' jobs job := by
  induction reaches with
  | here first rest => exact .here first rest
  | behind known unlisted _ ih =>
    exact .behind ((stemcells _).trans known) (fun found => unlisted ((listed _).mpr found)) ih

/-! ## What stays in another order -/

section

variable (relisted : rules.IsReordered rules') (context_relisted : context.IsReordered context')
  (group_relisted : group.IsReordered group')

include relisted in
theorem isListed_reordered_iff (found : JobStemcell) :
    IsListed rules.stemcell found ↔ IsListed rules'.stemcell found := by
  unfold IsListed
  simp only [relisted.stemcell.mem_iff]

include relisted in
theorem stemcell_reordered_eq_nil_iff : rules.stemcell = [] ↔ rules'.stemcell = [] := by
  rw [← List.isEmpty_iff, ← List.isEmpty_iff, relisted.stemcell.isEmpty_eq]

include group_relisted in
/-- The stemcell of a job has nothing to do with the other jobs of the group. -/
theorem jobStemcell_reordered (job : Job) : m.jobStemcell group' job = m.jobStemcell group job := by
  obtain ⟨jobs, networks, -, -, rfl⟩ := group_relisted
  rfl

include relisted group_relisted in
theorem runsOn_reordered_iff {job : Job} :
    RunsOn rules.stemcell m group job ↔ RunsOn rules'.stemcell m group' job := by
  unfold RunsOn
  simp only [jobStemcell_reordered group_relisted, isListed_reordered_iff relisted]

include group_relisted in
theorem isUnknown_reordered_iff {job : Job} : IsUnknown m group job ↔ IsUnknown m group' job := by
  unfold IsUnknown
  simp only [jobStemcell_reordered group_relisted]

include group_relisted in
theorem mem_jobs_reordered_iff {job : Job} : job ∈ group.jobs ↔ job ∈ group'.jobs := by
  obtain ⟨jobs, networks, perm, -, rfl⟩ := group_relisted
  exact perm.mem_iff

include relisted group_relisted in
/-- A group is torn in whatever order its jobs are listed. -/
theorem isTorn_reordered_iff : rules.IsTorn m group ↔ rules'.IsTorn m group' := by
  unfold IsTorn
  simp only [mem_jobs_reordered_iff group_relisted, runsOn_reordered_iff relisted group_relisted,
    isUnknown_reordered_iff group_relisted]

include relisted context_relisted group_relisted in
/-- All dimensions but that of the stemcells look at members alone. -/
theorem allows_reordered_iff {d : Dimension} (other : d ≠ .stemcell) :
    rules.Allows m context group d ↔ rules'.Allows m context' group' d := by
  obtain ⟨jobs, networks, jobs_perm, networks_perm, rfl⟩ := group_relisted
  cases d with
  | stemcell => exact absurd rfl other
  | deployments =>
    simp only [Allows, relisted.deployments.mem_iff, ← List.isEmpty_iff, relisted.deployments.isEmpty_eq,
      context_relisted.deploymentName]
  | jobs =>
    simp only [Allows, relisted.jobs.mem_iff, ← List.isEmpty_iff, relisted.jobs.isEmpty_eq, jobs_perm.mem_iff]
  | instanceGroups =>
    simp only [Allows, relisted.instanceGroups.mem_iff, ← List.isEmpty_iff, relisted.instanceGroups.isEmpty_eq]
  | networks =>
    simp only [Allows, relisted.networks.mem_iff, ← List.isEmpty_iff, relisted.networks.isEmpty_eq,
      networks_perm.mem_iff]
  | teams =>
    simp only [Allows, relisted.teams.mem_iff, ← List.isEmpty_iff, relisted.teams.isEmpty_eq,
      context_relisted.teams.mem_iff]
  | lifecycle => simp only [Allows, relisted.lifecycle]

/-! ## Outcomes -/

include relisted context_relisted group_relisted in
/-- Only the stemcells can make a difference to whether a group is chosen. -/
theorem isMatch_true_reordered_iff
    (stemcell : rules.Allows m context group .stemcell ↔ rules'.Allows m context' group' .stemcell) :
    rules'.isMatch m context' group' = .ok true ↔ rules.isMatch m context group = .ok true := by
  rw [isMatch_eq_true_iff, isMatch_eq_true_iff]
  refine forall_congr' fun d => ?_
  by_cases other : d = .stemcell
  · rw [other]
    exact stemcell.symm
  · exact (allows_reordered_iff relisted context_relisted group_relisted other).symm

include relisted group_relisted in
/-- With the jobs in their old order the search comes to the same ones. -/
theorem reaches_reordered_iff {job : Job} :
    Reaches rules.stemcell m group group.jobs job ↔ Reaches rules'.stemcell m group' group.jobs job := by
  have stemcells := fun job => @jobStemcell_reordered m group group' group_relisted job
  have listed := isListed_reordered_iff relisted
  exact ⟨.congr listed stemcells, .congr (fun found => (listed found).symm) fun job => (stemcells job).symm⟩

include relisted context_relisted group_relisted in
/-- With the jobs in their old order all other lists may be listed in any. -/
theorem isMatch_reordered_of_jobs_eq (jobs_stay : group'.jobs = group.jobs) :
    rules'.isMatch m context' group' = rules.isMatch m context group := by
  have reaches := fun job => @reaches_reordered_iff rules rules' m group group' relisted group_relisted job
  have stemcells := fun job => @jobStemcell_reordered m group group' group_relisted job
  apply eq_of_ok_true_iff
  · intro e
    rw [isMatch_eq_error_iff, isMatch_eq_error_iff]
    simp only [Fails, ne_eq, stemcell_reordered_eq_nil_iff relisted, reaches, jobs_stay, stemcells]
  · apply isMatch_true_reordered_iff relisted context_relisted group_relisted
    simp only [Allows, stemcell_reordered_eq_nil_iff relisted, reaches, jobs_stay, stemcells,
      isListed_reordered_iff relisted]

include relisted context_relisted group_relisted in
/-- A group that is not torn is chosen, passed or failed on in whatever order things are listed. -/
theorem isMatch_reordered_of_whole (whole : ¬ rules.IsTorn m group) :
    (rules'.isMatch m context' group').toOption = (rules.isMatch m context group).toOption := by
  have whole' : ¬ rules'.IsTorn m group' := whole ∘ (isTorn_reordered_iff relisted group_relisted).mpr
  apply toOption_eq_of_ok_true_iff
  · simp only [isMatch_eq_error_iff, exists_fails_iff whole, exists_fails_iff whole', ne_eq,
      stemcell_reordered_eq_nil_iff relisted, mem_jobs_reordered_iff group_relisted,
      isUnknown_reordered_iff group_relisted]
  · apply isMatch_true_reordered_iff relisted context_relisted group_relisted
    simp only [allows_stemcell_iff whole, allows_stemcell_iff whole', stemcell_reordered_eq_nil_iff relisted,
      mem_jobs_reordered_iff group_relisted, runsOn_reordered_iff relisted group_relisted]

end

/-- Any job of a group can be listed first. -/
theorem exists_isReordered_of_mem (mem : job ∈ group.jobs) :
    ∃ other, group.IsReordered other ∧ ∃ rest, other.jobs = job :: rest ∧
      m.jobStemcell other = m.jobStemcell group := by
  obtain ⟨front, back, split⟩ := List.append_of_mem mem
  refine ⟨{ group with jobs := job :: (front ++ back) }, ⟨_, group.networks, ?_, .refl _, rfl⟩, _, rfl, rfl⟩
  rw [split]
  exact List.perm_middle

/-- The order in which jobs are listed decides on a torn group. -/
theorem exists_isReordered_of_isTorn (context : PlacementContext) (torn : rules.IsTorn m group) :
    (∃ other, group.IsReordered other ∧ ∃ chosen, rules.isMatch m context other = .ok chosen) ∧
      ∃ other, group.IsReordered other ∧ ∃ e, rules.isMatch m context other = .error e := by
  obtain ⟨⟨job, mem, found, known, listed⟩, ⟨broken, broken_mem, e, unknown⟩⟩ := torn
  constructor
  · obtain ⟨other, relisted, rest, jobs_eq, stemcells⟩ := exists_isReordered_of_mem (m := m) mem
    refine ⟨other, relisted, ?_⟩
    -- the search ends with the first job, whose stemcell is known
    cases outcome : rules.isMatch m context other with
    | ok chosen => exact ⟨chosen, rfl⟩
    | error e =>
      obtain ⟨-, reached, reaches, unknown⟩ := isMatch_eq_error_iff.mp outcome
      rw [jobs_eq] at reaches
      rw [← stemcells] at known
      cases reaches with
      | here => nomatch known.symm.trans unknown
      | behind known_too unlisted =>
        obtain rfl := Except.ok.inj (known.symm.trans known_too)
        exact absurd listed unlisted
  · obtain ⟨other, relisted, rest, jobs_eq, stemcells⟩ := exists_isReordered_of_mem (m := m) broken_mem
    refine ⟨other, relisted, e, isMatch_eq_error_iff.mpr ⟨?_, broken, ?_, by rw [stemcells, unknown]⟩⟩
    · intro nothing_listed
      obtain ⟨s, mem, -⟩ := listed
      rw [nothing_listed] at mem
      nomatch mem
    · rw [jobs_eq]
      exact .here broken rest

/-- The order in which rules, groups and contexts list things plays no part as long as the jobs of the
    group stay in order.  The order of the jobs plays none, but for which job a failure names, just if
    the group is not torn. -/
theorem isMatch_reordered_iff (rules : PlacementRules) (m : Manifest) (context : PlacementContext)
    (group : InstanceGroup) :
    (∀ rules' context' group', rules.IsReordered rules' → context.IsReordered context' →
        group.IsReordered group' → group'.jobs = group.jobs →
          rules'.isMatch m context' group' = rules.isMatch m context group) ∧
      ((∀ rules' context' group', rules.IsReordered rules' → context.IsReordered context' →
          group.IsReordered group' →
            (rules'.isMatch m context' group').toOption = (rules.isMatch m context group).toOption) ↔
        ¬ rules.IsTorn m group) := by
  refine ⟨fun _ _ _ relisted context_relisted group_relisted jobs_stay =>
    isMatch_reordered_of_jobs_eq relisted context_relisted group_relisted jobs_stay, ?_, ?_⟩
  · intro same torn
    obtain ⟨⟨first, relisted, chosen, decided⟩, second, relisted', e, failed⟩ :=
      exists_isReordered_of_isTorn context torn
    have before := same rules context first (.refl rules) (.refl context) relisted
    have behind := same rules context second (.refl rules) (.refl context) relisted'
    rw [decided] at before
    rw [failed] at behind
    nomatch before.trans behind.symm
  · intro whole rules' context' group' relisted context_relisted group_relisted
    exact isMatch_reordered_of_whole relisted context_relisted group_relisted whole

/-! ## A torn group -/

/-- Neither order of the jobs makes the rules for `bionic` succeed on a group whose second job has no
    release; the first of the jobs runs on `jammy`. -/
theorem isMatch_reordered_web :
    ((webRules "bionic").isMatch webManifest ⟨"d", ["b"]⟩
        { webGroup with jobs := webGroup.jobs.reverse }).toOption =
      ((webRules "bionic").isMatch webManifest ⟨"d", ["b"]⟩ webGroup).toOption ∧
    ¬ ∀ rules' context' group', (webRules "jammy").IsReordered rules' →
      PlacementContext.IsReordered ⟨"d", ["b"]⟩ context' → webGroup.IsReordered group' →
        (rules'.isMatch webManifest context' group').toOption =
          ((webRules "jammy").isMatch webManifest ⟨"d", ["b"]⟩ webGroup).toOption := by
  have whole : ¬ (webRules "bionic").IsTorn webManifest webGroup := by
    rintro ⟨⟨job, mem, found, known, s, listed, same⟩, -⟩
    obtain rfl := List.mem_singleton.mp listed
    rcases List.mem_cons.mp mem with rfl | mem
    · obtain rfl := Except.ok.inj known
      exact absurd same (by decide)
    · obtain rfl := List.mem_singleton.mp mem
      nomatch known
  -- the first job decides by its stemcell, and the second one has none
  have torn : (webRules "jammy").IsTorn webManifest webGroup :=
    ⟨⟨_, List.mem_cons_self, _, rfl, ⟨"jammy"⟩, List.mem_singleton_self _, rfl⟩,
      _, List.mem_cons_of_mem _ (List.mem_singleton_self _), _, rfl⟩
  obtain ⟨-, bionic⟩ := isMatch_reordered_iff (webRules "bionic") webManifest ⟨"d", ["b"]⟩ webGroup
  obtain ⟨-, jammy⟩ := isMatch_reordered_iff (webRules "jammy") webManifest ⟨"d", ["b"]⟩ webGroup
  exact ⟨bionic.mpr whole _ _ _ (.refl _) (.refl _) webGroup.isReordered_reverse, fun same => jammy.mp same torn⟩

/-- With the job first whose release is missing, the rules fail on a group that they choose otherwise. -/
theorem not_forall_isMatch_reordered :
    ¬ ∀ (rules rules' : PlacementRules) (m : Manifest) (context context' : PlacementContext)
      (group group' : InstanceGroup), rules.IsReordered rules' → context.IsReordered context' →
        group.IsReordered group' →
          (rules'.isMatch m context' group').toOption = (rules.isMatch m context group).toOption := by
  intro same
  nomatch same (webRules "jammy") _ webManifest ⟨"d", ["b"]⟩ _ webGroup _ (.refl _) (.refl _)
    webGroup.isReordered_reverse

end PlacementRules
end DeployManifest
