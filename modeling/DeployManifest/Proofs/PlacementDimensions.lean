import DeployManifest.Manifest.Placement
import DeployManifest.Proofs.Outcome

/-!
# The dimensions of placement rules

Rules look at an instance group from seven sides, and each side has a list, or an option, of its own.
`Allows` says when one of them allows a group; a side that is left empty allows all.  `keeping` empties some
of them, and `only` all but one.

The rules choose a group if each side allows it (`isMatch_eq_true_iff`).  Of the seven only the stemcells
can fail, as they ask the manifest for the stemcell of one job after another: they do if they come to a job
whose stemcell is not known (`Reaches`, `isMatch_eq_error_iff`).  What a side says reads its own list alone, so
that emptying sides leaves the others what they were (`allows_keeping_iff`).

Main statement: `isMatch_by_dimension`.

- `Dimension`: the seven sides.
- `PlacementRules.Allows`, `PlacementRules.Fails`: what each of them says.
- `PlacementRules.keeping`, `PlacementRules.only`: rules with some sides emptied.
-/

namespace DeployManifest.PlacementRules

variable {rules : PlacementRules} {m : Manifest} {context : PlacementContext}
  {group : InstanceGroup} {e : LookupError}

/-- The sides from which rules look at an instance group. -/
inductive Dimension where
  | stemcell
  | deployments
  | jobs
  | instanceGroups
  | networks
  | teams
  | lifecycle
  deriving DecidableEq

/-- The rules with nothing but the dimensions that are kept. -/
def keeping (rules : PlacementRules) (kept : Dimension → Bool) : PlacementRules where
  stemcell := if kept .stemcell then rules.stemcell else []
  deployments := if kept .deployments then rules.deployments else []
  jobs := if kept .jobs then rules.jobs else []
  instanceGroups := if kept .instanceGroups then rules.instanceGroups else []
  networks := if kept .networks then rules.networks else []
  teams := if kept .teams then rules.teams else []
  lifecycle := if kept .lifecycle then rules.lifecycle else none

/-- The rules with nothing but one dimension. -/
def only (rules : PlacementRules) (d : Dimension) : PlacementRules :=
  rules.keeping fun other => other == d

/-- Rules with all dimensions empty. -/
def empty : PlacementRules := ⟨[], [], [], [], [], [], none⟩

/-! ## What a dimension says -/

/-- Whether the operating system of a stemcell is one of some systems. -/
def IsListed (systems : List StemcellOs) (found : JobStemcell) : Prop :=
  ∃ s ∈ systems, s.os = found.os

/-- Whether a search for a job that runs on one of some systems comes to a job of a list: the jobs in
    front of it run on other systems. -/
inductive Reaches (systems : List StemcellOs) (m : Manifest) (group : InstanceGroup) :
    List Job → Job → Prop where
  | here (job : Job) (rest : List Job) : Reaches systems m group (job :: rest) job
  | behind {first job : Job} {rest : List Job} {found : JobStemcell}
    (known : m.jobStemcell group first = .ok found) (unlisted : ¬ IsListed systems found)
    (later : Reaches systems m group rest job) : Reaches systems m group (first :: rest) job

/-- Whether one dimension allows an instance group. -/
def Allows (rules : PlacementRules) (m : Manifest) (context : PlacementContext) (group : InstanceGroup) :
    Dimension → Prop
  | .stemcell => rules.stemcell = [] ∨ ∃ job, Reaches rules.stemcell m group group.jobs job ∧
      ∃ found, m.jobStemcell group job = .ok found ∧ IsListed rules.stemcell found
  | .deployments => rules.deployments = [] ∨ context.deploymentName ∈ rules.deployments
  | .jobs => rules.jobs = [] ∨ ∃ job ∈ group.jobs, ⟨job.name, job.release⟩ ∈ rules.jobs
  | .instanceGroups => rules.instanceGroups = [] ∨ group.name ∈ rules.instanceGroups
  | .networks => rules.networks = [] ∨ ∃ network ∈ group.networks, network.name ∈ rules.networks
  | .teams => rules.teams = [] ∨ ∃ team ∈ context.teams, team ∈ rules.teams
  | .lifecycle => ∀ lifecycle, rules.lifecycle = some lifecycle →
      lifecycle.effective = group.lifecycle.effective

/-- Whether the dimension of the stemcells fails on an instance group: there is a job that it comes to, and
    whose stemcell cannot be told. -/
def Fails (rules : PlacementRules) (m : Manifest) (group : InstanceGroup) (e : LookupError) : Prop :=
  rules.stemcell ≠ [] ∧
    ∃ job, Reaches rules.stemcell m group group.jobs job ∧ m.jobStemcell group job = .error e

/-! ## The search for a stemcell -/

/-- The search comes to the first job, and to those behind it if this one runs on another system. -/
theorem exists_reaches_cons_iff {systems : List StemcellOs} {first : Job} {rest : List Job} {P : Job → Prop} :
    (∃ job, Reaches systems m group (first :: rest) job ∧ P job) ↔
      P first ∨ ∃ found, m.jobStemcell group first = .ok found ∧ ¬ IsListed systems found ∧
        ∃ job, Reaches systems m group rest job ∧ P job := by
  constructor
  · rintro ⟨job, ⟨_, _⟩ | ⟨known, unlisted, later⟩, holds⟩
    · exact .inl holds
    · exact .inr ⟨_, known, unlisted, job, later, holds⟩
  · rintro (holds | ⟨found, known, unlisted, job, later, holds⟩)
    · exact ⟨first, .here _ _, holds⟩
    · exact ⟨job, .behind known unlisted later, holds⟩

/-- The first job decides, unless it runs on another system. -/
theorem stemcellMatches_cons (rules : PlacementRules) (m : Manifest) (group : InstanceGroup) (job : Job)
    (rest : List Job) :
    (∃ e, m.jobStemcell group job = .error e ∧ rules.stemcellMatches m group (job :: rest) = .error e) ∨
    (∃ found, m.jobStemcell group job = .ok found ∧ IsListed rules.stemcell found ∧
      rules.stemcellMatches m group (job :: rest) = .ok true) ∨
    (∃ found, m.jobStemcell group job = .ok found ∧ ¬ IsListed rules.stemcell found ∧
      rules.stemcellMatches m group (job :: rest) = rules.stemcellMatches m group rest) := by
  rw [stemcellMatches]
  cases here : m.jobStemcell group job with
  | error e => exact .inl ⟨e, rfl, rfl⟩
  | ok found =>
    have listed_iff : (rules.stemcell.any fun s => s.os == found.os) = true ↔ IsListed rules.stemcell found := by
      simp [IsListed]
    by_cases listed : IsListed rules.stemcell found
    · exact .inr (.inl ⟨found, rfl, listed, by simp only [listed_iff.mpr listed, if_true]⟩)
    · exact .inr (.inr ⟨found, rfl, listed, by simp only [listed_iff, listed, if_false]⟩)

/-- The search fails where it comes to a job whose stemcell is not known, and finds something where it comes
    to one that runs on a listed system.  The induction is on the jobs that are left. -/
theorem stemcellMatches_eq_iff (jobs : List Job) :
    (∀ e, rules.stemcellMatches m group jobs = .error e ↔
      ∃ job, Reaches rules.stemcell m group jobs job ∧ m.jobStemcell group job = .error e) ∧
    (rules.stemcellMatches m group jobs = .ok true ↔
      ∃ job, Reaches rules.stemcell m group jobs job ∧
        ∃ found, m.jobStemcell group job = .ok found ∧ IsListed rules.stemcell found) := by
  induction jobs with
  | nil => exact ⟨fun e => ⟨nofun, nofun⟩, nofun, nofun⟩
  | cons job rest ih =>
    simp only [exists_reaches_cons_iff]
    rcases rules.stemcellMatches_cons m group job rest with ⟨e, unknown, outcome⟩ | ⟨found, known, listed, outcome⟩ |
      ⟨found, known, unlisted, outcome⟩
    · simp [outcome, unknown]
    · simp [outcome, known, listed]
    · simp [outcome, known, unlisted, ih]

/-! ## All dimensions at once -/

/-- What holds for each dimension holds for all seven. -/
theorem Dimension.forall_iff {P : Dimension → Prop} :
    (∀ d, P d) ↔ P .stemcell ∧ P .jobs ∧ P .instanceGroups ∧ P .networks ∧ P .deployments ∧
      P .teams ∧ P .lifecycle := by
  constructor
  · intro all
    exact ⟨all _, all _, all _, all _, all _, all _, all _⟩
  · rintro ⟨stemcell, jobs, groups, networks, deployments, teams, lifecycle⟩ d
    cases d <;> assumption

theorem allows_eq_true_iff {α : Type} {allowed : List α} {isChosen : Bool} :
    allows allowed isChosen = true ↔ allowed = [] ∨ isChosen = true := by
  simp [allows]

theorem stemcellRule_eq_error_iff : rules.stemcellRule m group = .error e ↔ rules.Fails m group e := by
  rw [stemcellRule, Fails, ← (stemcellMatches_eq_iff group.jobs).1 e]
  cases rules.stemcell <;> simp

theorem stemcellRule_eq_true_iff :
    rules.stemcellRule m group = .ok true ↔ rules.Allows m context group .stemcell := by
  rw [stemcellRule, Allows, ← (stemcellMatches_eq_iff group.jobs).2]
  cases rules.stemcell <;> simp

theorem lifecycleRule_eq_true_iff :
    rules.lifecycleRule group = true ↔ rules.Allows m context group .lifecycle := by
  rw [lifecycleRule, Allows]
  cases rules.lifecycle <;> simp

/-- Rules fail on a group if their stemcells do, whatever the other dimensions say. -/
theorem isMatch_eq_error_iff : rules.isMatch m context group = .error e ↔ rules.Fails m group e := by
  rw [← stemcellRule_eq_error_iff, isMatch]
  cases rules.stemcellRule m group <;> simp [Except.map]

/-- Rules choose a group if every dimension allows it. -/
theorem isMatch_eq_true_iff :
    rules.isMatch m context group = .ok true ↔ ∀ d, rules.Allows m context group d := by
  rw [isMatch, map_eq_ok, Dimension.forall_iff, ← stemcellRule_eq_true_iff, ← lifecycleRule_eq_true_iff]
  simp only [Bool.and_eq_true, and_assoc, jobRule, instanceGroupRule, networkRule, deploymentRule, teamRule,
    allows_eq_true_iff, List.any_eq_true, List.contains_iff_mem, Allows]
  constructor
  · rintro ⟨_, runsOn, rfl, others⟩
    exact ⟨runsOn, others⟩
  · rintro ⟨runsOn, others⟩
    exact ⟨true, runsOn, rfl, others⟩

/-! ## Some of the dimensions -/

/-- A dimension that is kept allows what it allowed, and one that is not allows every group. -/
theorem allows_keeping_iff {kept : Dimension → Bool} {d : Dimension} :
    (rules.keeping kept).Allows m context group d ↔ (kept d = true → rules.Allows m context group d) := by
  cases d <;> cases keeps : kept _ <;> simp [Allows, keeping, keeps]

/-- Rules with some of the dimensions choose a group if each of these allows it. -/
theorem isMatch_keeping_iff {kept : Dimension → Bool} :
    (rules.keeping kept).isMatch m context group = .ok true ↔
      ∀ d, kept d = true → rules.Allows m context group d := by
  simp only [isMatch_eq_true_iff, allows_keeping_iff]

theorem isMatch_only_iff {d : Dimension} :
    (rules.only d).isMatch m context group = .ok true ↔ rules.Allows m context group d := by
  rw [only, isMatch_keeping_iff]
  simp

/-- Rules are a conjunction of their dimensions.  They fail on a group where their stemcells alone fail,
    with the same error, and choose it where each dimension alone does.  So a group stays chosen with
    any dimensions left out, and without any rules every group is chosen.  Alone, the stemcells fail as
    `Fails` says, and a dimension chooses a group as `Allows` says. -/
theorem isMatch_by_dimension (rules : PlacementRules) (m : Manifest) (context : PlacementContext)
    (group : InstanceGroup) :
    (∀ e, rules.isMatch m context group = .error e ↔
        (rules.only .stemcell).isMatch m context group = .error e) ∧
      (rules.isMatch m context group = .ok true ↔
        ∀ d, (rules.only d).isMatch m context group = .ok true) ∧
      (∀ kept, rules.isMatch m context group = .ok true →
        (rules.keeping kept).isMatch m context group = .ok true) ∧
      empty.isMatch m context group = .ok true ∧
      (∀ e, (rules.only .stemcell).isMatch m context group = .error e ↔ rules.Fails m group e) ∧
      ∀ d, (rules.only d).isMatch m context group = .ok true ↔ rules.Allows m context group d := by
  have fails e : (rules.only .stemcell).isMatch m context group = .error e ↔ rules.Fails m group e := by
    rw [isMatch_eq_error_iff]
    -- the stemcells are those of the rules, and nothing else is looked at
    exact Iff.rfl
  refine ⟨fun e => isMatch_eq_error_iff.trans (fails e).symm, ?_, fun kept chosen => ?_, rfl, fails,
    fun d => isMatch_only_iff⟩
  · calc rules.isMatch m context group = .ok true
        ↔ ∀ d, rules.Allows m context group d := isMatch_eq_true_iff
      _ ↔ ∀ d, (rules.only d).isMatch m context group = .ok true :=
        forall_congr' fun _ => isMatch_only_iff.symm
  · exact isMatch_keeping_iff.mpr fun d _ => isMatch_eq_true_iff.mp chosen d

/-! ## Rules with every dimension -/

/-- A group with two jobs, on the stemcell `default`. -/
def webGroup : InstanceGroup where
  name := "web"
  instances := 1
  azs := []
  jobs := [⟨"nginx", "web", .empty, .empty, .empty⟩, ⟨"probe", "addon", .empty, .empty, .empty⟩]
  vmType := none
  vmExtensions := []
  vmResources := none
  stemcell := "default"
  persistentDisk := none
  persistentDiskType := none
  networks := [⟨"private", [], []⟩, ⟨"public", [], []⟩]
  update := none
  migratedFrom := []
  lifecycle := .unspecified
  properties := .empty
  env := .empty

/-- A manifest without the release of the second of these jobs. -/
def webManifest : Manifest where
  name := "a"
  directorUuid := ""
  instanceGroups := [webGroup]
  features := none
  tags := .empty
  releases := [⟨"web", "1", none, none, none⟩]
  stemcells := [⟨"default", "jammy", "2", none⟩]
  addons := []
  properties := .empty
  declared := []
  update := none
  addonsApplied := false

/-- Rules that say something in every dimension. -/
def webRules (os : String) : PlacementRules :=
  ⟨[⟨os⟩], ["d"], [⟨"nginx", "web"⟩], ["db", "web"], ["public"], ["a", "b"], some .service⟩

/-- The rules for `jammy` choose the group, and so do any of their dimensions.  Those for another system
    come to the job with the missing release, with or without the other dimensions. -/
theorem isMatch_by_dimension_web :
    (webRules "jammy").isMatch webManifest ⟨"d", ["b"]⟩ webGroup = .ok true ∧
      (∀ kept, ((webRules "jammy").keeping kept).isMatch webManifest ⟨"d", ["b"]⟩ webGroup =
        .ok true) ∧
      ((webRules "bionic").only .stemcell).isMatch webManifest ⟨"d", ["b"]⟩ webGroup =
        .error (.releaseNotFound "addon") := by
  have chosen : (webRules "jammy").isMatch webManifest ⟨"d", ["b"]⟩ webGroup = .ok true := rfl
  have fails : (webRules "bionic").isMatch webManifest ⟨"d", ["b"]⟩ webGroup =
      .error (.releaseNotFound "addon") := rfl
  obtain ⟨-, -, drops, -⟩ := isMatch_by_dimension (webRules "jammy") webManifest ⟨"d", ["b"]⟩ webGroup
  obtain ⟨errors, -⟩ := isMatch_by_dimension (webRules "bionic") webManifest ⟨"d", ["b"]⟩ webGroup
  exact ⟨chosen, fun kept => drops kept chosen, (errors _).mp fails⟩

end DeployManifest.PlacementRules
