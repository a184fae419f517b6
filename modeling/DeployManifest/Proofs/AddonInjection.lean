import DeployManifest.Manifest.Placement
import DeployManifest.Proofs.Outcome

/-!
# What addons inject

Addons are applied one after another, and each of them looks at all instance groups.  What becomes of
a group depends on nothing but the group, though: beside it, rules look at the releases and stemcells
of the manifest, and those stay.

`Addon.Matches` says that the rules of an addon choose a group.  `Adds` says what a list of addons
adds to the jobs of one group, where each addon looks at the group behind the addons before it.

Main statement: `applyAddons_eq_ok_iff`.  It rests on `injectAll_eq_none_iff`, which exchanges the loop
over the addons and the loop over the groups, and on `isMatch_congr`.

- `Manifest.SameImages`: manifests whose rules about stemcells say the same.
- `Addon.IsDecided`, `Addon.Matches`: whether the rules of an addon can be told, and what they say.
- `Adds`, `Grows`: the jobs that a list of addons adds to a group, and the group behind them.
-/

namespace DeployManifest

variable {m n : Manifest} {context : PlacementContext} {group grown : InstanceGroup}
  {a : Addon} {addons rest : List Addon} {added : List Job}

/-! ## What rules look at -/

/-- Whether two manifests have the same releases and stemcells. -/
structure Manifest.SameImages (m n : Manifest) : Prop where
  releases : m.releases = n.releases
  stemcells : m.stemcells = n.stemcells

namespace Manifest.SameImages

theorem symm (same : m.SameImages n) : n.SameImages m := ⟨same.releases.symm, same.stemcells.symm⟩

theorem of_groups (m : Manifest) (groups : List InstanceGroup) :
    Manifest.SameImages { m with instanceGroups := groups } m := ⟨rfl, rfl⟩

/-- A job has the same stemcell in manifests with the same images. -/
theorem jobStemcell_congr (same : m.SameImages n) (job : Job) :
    m.jobStemcell group job = n.jobStemcell group job := by
  simp only [jobStemcell, release?, stemcell?, same.releases, same.stemcells]

/-- So the rule about stemcells gives the same. -/
theorem stemcellMatches_congr (same : m.SameImages n) {rules : PlacementRules} (jobs : List Job) :
    rules.stemcellMatches m group jobs = rules.stemcellMatches n group jobs := by
  induction jobs with
  | nil => rfl
  | cons job rest ih => simp only [PlacementRules.stemcellMatches, same.jobStemcell_congr, ih]

/-- Rules choose the same of two manifests that differ in their groups only. -/
theorem isMatch_congr (same : m.SameImages n) (rules : PlacementRules) :
    rules.isMatch m context group = rules.isMatch n context group := by
  simp only [PlacementRules.isMatch, PlacementRules.stemcellRule, same.stemcellMatches_congr]

end Manifest.SameImages

/-! ## What one addon adds to a group -/

namespace InstanceGroup

/-- The group with more jobs behind its own. -/
def extendedBy (group : InstanceGroup) (jobs : List Job) : InstanceGroup :=
  { group with jobs := group.jobs ++ jobs }

theorem extendedBy_nil (group : InstanceGroup) : group.extendedBy [] = group := by
  simp [extendedBy]

theorem extendedBy_append (group : InstanceGroup) (first second : List Job) :
    group.extendedBy (first ++ second) = (group.extendedBy first).extendedBy second := by
  simp [extendedBy]

end InstanceGroup

namespace Addon

/-- Whether the rules of an addon choose a group: those that include it are missing or match, those
    that exclude it are missing or do not. -/
def Matches (a : Addon) (m : Manifest) (context : PlacementContext) (group : InstanceGroup) : Prop :=
  (∀ rules, a.included = some rules → rules.isMatch m context group = .ok true) ∧
    ∀ rules, a.excluded = some rules → rules.isMatch m context group = .ok false

/-- Whether the rules of an addon can be evaluated for a group. -/
def IsDecided (a : Addon) (m : Manifest) (context : PlacementContext) (group : InstanceGroup) :
    Prop :=
  (∀ rules, a.included = some rules → ∃ chosen, rules.isMatch m context group = .ok chosen) ∧
    ∀ rules, a.excluded = some rules → ∃ chosen, rules.isMatch m context group = .ok chosen

/-- The jobs that an addon injects: its own, marked as coming from an addon. -/
def markedJobs (a : Addon) : List Job :=
  a.jobs.map fun j => { j with properties.operator.isAddon := true }

/-- Rules that are given for a group can be evaluated, and say what those that are missing say just if
    all of the given ones do. -/
theorem ruleMatches_eq_ok_iff {kind : RuleKind} {rules? : Option PlacementRules}
    {default chosen : Bool} :
    a.ruleMatches kind rules? default m context group = .ok chosen ↔
      (∀ rules, rules? = some rules → ∃ said, rules.isMatch m context group = .ok said) ∧
        (chosen = default ↔
          ∀ rules, rules? = some rules → rules.isMatch m context group = .ok default) := by
  cases rules? with
  | none => simp [ruleMatches, eq_comm]
  | some rules =>
    simp only [ruleMatches, mapError_eq_ok, Option.some.injEq, forall_eq']
    cases rules.isMatch m context group with
    | error e => simp
    | ok said => cases said <;> cases chosen <;> cases default <;> simp

/-- An addon is decided for a group if both of its rules are, and chooses it if the first includes it and
    the second does not exclude it. -/
theorem isMatch_eq_ok {chosen : Bool} :
    a.isMatch m context group = .ok chosen ↔
      ∃ isIncluded isExcluded,
        a.ruleMatches .included a.included true m context group = .ok isIncluded ∧
        a.ruleMatches .excluded a.excluded false m context group = .ok isExcluded ∧
        (isIncluded && !isExcluded) = chosen := by
  unfold isMatch
  cases a.ruleMatches .included a.included true m context group with
  | error e => simp
  | ok isIncluded => simp [map_eq_ok]

/-- What is decided is whether the rules choose the group. -/
theorem isMatch_eq_ok_iff {chosen : Bool} :
    a.isMatch m context group = .ok chosen ↔
      a.IsDecided m context group ∧ (chosen = true ↔ a.Matches m context group) := by
  simp only [isMatch_eq_ok, ruleMatches_eq_ok_iff]
  unfold IsDecided Matches
  constructor
  · rintro ⟨isIncluded, isExcluded, ⟨including, included⟩, ⟨excluding, excluded⟩, rfl⟩
    refine ⟨⟨including, excluding⟩, ?_⟩
    rw [← included, ← excluded]
    cases isIncluded <;> cases isExcluded <;> decide
  · rintro ⟨⟨including, excluding⟩, chosen_iff⟩
    -- what the rules decide has to be some answer
    obtain ⟨isIncluded, included⟩ : ∃ isIncluded : Bool, isIncluded = true ↔ ∀ rules,
        a.included = some rules → rules.isMatch m context group = .ok true :=
      Classical.byCases (fun yes => ⟨true, by simpa using yes⟩) fun no => ⟨false, by simpa using no⟩
    obtain ⟨isExcluded, excluded⟩ : ∃ isExcluded : Bool, isExcluded = false ↔ ∀ rules,
        a.excluded = some rules → rules.isMatch m context group = .ok false :=
      Classical.byCases (fun yes => ⟨false, by simpa using yes⟩) fun no => ⟨true, by simpa using no⟩
    refine ⟨isIncluded, isExcluded, ⟨including, included⟩, ⟨excluding, excluded⟩, ?_⟩
    rw [← included, ← excluded] at chosen_iff
    cases isIncluded <;> cases isExcluded <;> simpa using chosen_iff

/-- An addon extends a group by its marked jobs if it matches, and leaves it otherwise; in both cases
    its rules can be evaluated. -/
theorem injectInto_eq_ok_iff :
    a.injectInto m context group = .ok grown ↔
      a.IsDecided m context group ∧
        ((a.Matches m context group ∧ grown = group.extendedBy a.markedJobs) ∨
          (¬ a.Matches m context group ∧ grown = group)) := by
  simp only [injectInto, map_eq_ok, isMatch_eq_ok_iff]
  constructor
  · rintro ⟨chosen, ⟨decided, chosen_iff⟩, rfl⟩
    refine ⟨decided, ?_⟩
    cases chosen with
    | true => exact .inl ⟨chosen_iff.mp rfl, rfl⟩
    | false => exact .inr ⟨fun matching => Bool.false_ne_true (chosen_iff.mpr matching), rfl⟩
  · rintro ⟨decided, ⟨matching, rfl⟩ | ⟨passed, rfl⟩⟩
    · exact ⟨true, ⟨decided, fun _ => matching, fun _ => rfl⟩, rfl⟩
    · exact ⟨false, ⟨decided, nofun, fun matching => absurd matching passed⟩, rfl⟩

end Addon

/-! ## What a list of addons adds to a group -/

/-- The jobs that a list of addons adds to those of a group.  Each addon that matches the group as it
    stands adds its own, in order; the reserved one adds nothing, whatever its rules. -/
inductive Adds (m : Manifest) (context : PlacementContext) :
    InstanceGroup → List Addon → List Job → Prop where
  | nil (group : InstanceGroup) : Adds m context group [] []
  | reserved {group : InstanceGroup} {a : Addon} {rest : List Addon} {added : List Job}
    (name : a.name = Addon.dnsName) (later : Adds m context group rest added) :
    Adds m context group (a :: rest) added
  | chosen {group : InstanceGroup} {a : Addon} {rest : List Addon} {added : List Job}
    (name : a.name ≠ Addon.dnsName) (decided : a.IsDecided m context group)
    (matching : a.Matches m context group)
    (later : Adds m context (group.extendedBy a.markedJobs) rest added) :
    Adds m context group (a :: rest) (a.markedJobs ++ added)
  | passed {group : InstanceGroup} {a : Addon} {rest : List Addon} {added : List Job}
    (name : a.name ≠ Addon.dnsName) (decided : a.IsDecided m context group)
    (passed : ¬ a.Matches m context group) (later : Adds m context group rest added) :
    Adds m context group (a :: rest) added

/-- Whether a group becomes another one by the jobs that a list of addons adds. -/
def Grows (m : Manifest) (context : PlacementContext) (addons : List Addon)
    (group grown : InstanceGroup) : Prop :=
  ∃ added, Adds m context group addons added ∧ grown = group.extendedBy added

/-- The same jobs are added where the images are the same. -/
theorem Adds.congr (same : m.SameImages n) (adds : Adds m context group addons added) :
    Adds n context group addons added := by
  have here : ∀ (a : Addon) (group : InstanceGroup),
      (a.IsDecided m context group ↔ a.IsDecided n context group) ∧
        (a.Matches m context group ↔ a.Matches n context group) := fun a group => by
    simp only [Addon.IsDecided, Addon.Matches, same.isMatch_congr, and_self]
  induction adds with
  | nil group => exact .nil group
  | reserved name _ ih => exact .reserved name ih
  | chosen name decided matching _ ih =>
    exact .chosen name ((here _ _).1.mp decided) ((here _ _).2.mp matching) ih
  | passed name decided passed _ ih =>
    exact .passed name ((here _ _).1.mp decided) (fun matching => passed ((here _ _).2.mpr matching)) ih

theorem Grows.congr (same : m.SameImages n) (grows : Grows m context addons group grown) :
    Grows n context addons group grown :=
  let ⟨added, adds, extended⟩ := grows
  ⟨added, adds.congr same, extended⟩

/-- A group determines what addons add to it. -/
theorem Adds.unique {other : List Job} (adds : Adds m context group addons added)
    (adds' : Adds m context group addons other) : added = other := by
  induction adds generalizing other with
  | nil group => cases adds'; rfl
  | reserved name _ ih =>
    cases adds' with
    | reserved _ later => exact ih later
    | chosen other_name _ _ _ | passed other_name _ _ _ => exact absurd name other_name
  | chosen name _ matching _ ih =>
    cases adds' with
    | reserved other_name _ => exact absurd other_name name
    | chosen _ _ _ later => rw [ih later]
    | passed _ _ passed _ => exact absurd matching passed
  | passed name _ passed _ ih =>
    cases adds' with
    | reserved other_name _ => exact absurd other_name name
    | chosen _ _ matching _ => exact absurd matching passed
    | passed _ _ _ later => exact ih later

/-- There is one way for a group to grow. -/
theorem Grows.unique {other : InstanceGroup} (grows : Grows m context addons group grown)
    (grows' : Grows m context addons group other) : grown = other := by
  obtain ⟨added, adds, rfl⟩ := grows
  obtain ⟨added', adds', rfl⟩ := grows'
  rw [adds.unique adds']

/-- Without addons a group stays as it is. -/
theorem grows_nil : Grows m context [] = Eq := by
  funext group grown
  apply propext
  constructor
  · rintro ⟨_, ⟨⟩, rfl⟩
    exact group.extendedBy_nil.symm
  · rintro rfl
    exact ⟨[], .nil _, group.extendedBy_nil.symm⟩

/-- The addon that configures names adds nothing. -/
theorem grows_reserved (name : a.name = Addon.dnsName) :
    Grows m context (a :: rest) = Grows m context rest := by
  funext group grown
  apply propext
  constructor
  · rintro ⟨added, adds, rfl⟩
    cases adds with
    | reserved _ later => exact ⟨added, later, rfl⟩
    | chosen other _ _ _ | passed other _ _ _ => exact absurd name other
  · rintro ⟨added, adds, rfl⟩
    exact ⟨added, .reserved name adds, rfl⟩

/-- A group grows by the first addon and then, as it stands behind that one, by the others. -/
theorem grows_cons (name : a.name ≠ Addon.dnsName) :
    Grows m context (a :: rest) = fun group grown =>
      ∃ middle, a.injectInto m context group = .ok middle ∧ Grows m context rest middle grown := by
  funext group grown
  apply propext
  simp only [Addon.injectInto_eq_ok_iff]
  constructor
  · rintro ⟨added, adds, rfl⟩
    -- the first addon is not the reserved one, so its rules decide
    cases adds with
    | reserved other _ => exact absurd other name
    | chosen _ decided matching later =>
      exact ⟨_, ⟨decided, .inl ⟨matching, rfl⟩⟩, _, later, group.extendedBy_append _ _⟩
    | passed _ decided passed later => exact ⟨group, ⟨decided, .inr ⟨passed, rfl⟩⟩, _, later, rfl⟩
  · rintro ⟨middle, ⟨decided, ⟨matching, rfl⟩ | ⟨passed, rfl⟩⟩, added, later, rfl⟩
    · exact ⟨_, .chosen name decided matching later, (group.extendedBy_append _ _).symm⟩
    · exact ⟨_, .passed name decided passed later, rfl⟩

/-! ## All addons and all groups -/

namespace Manifest

/-- An addon can be applied just if its jobs can be injected into every group, and nothing else changes. -/
theorem applyAddon_eq_ok_iff :
    m.applyAddon context a = .ok n ↔
      ∃ groups, List.Forall₂ (fun g g' => a.injectInto m context g = .ok g') m.instanceGroups groups ∧
        n = { m with instanceGroups := groups } := by
  simp only [applyAddon, map_eq_ok, mapM_eq_ok_iff, eq_comm (a := n)]

/-- Several addons can be applied just if the first one can, and the others behind it. -/
theorem injectAll_cons_eq_none_iff :
    m.injectAll context (a :: rest) = ⟨n, none⟩ ↔
      ∃ middle, m.applyAddon context a = .ok middle ∧ middle.injectAll context rest = ⟨n, none⟩ := by
  simp only [injectAll]
  cases m.applyAddon context a with
  | error e => simp
  | ok middle => simp

/-- Injecting the jobs of addons succeeds if every group can grow by them, and makes it grow.  The
    induction is on the addons, for any groups: those behind the first addon are the groups that the
    others look at. -/
theorem injectAll_eq_none_iff :
    m.injectAll context (addons.filter fun a => a.name != Addon.dnsName) = ⟨n, none⟩ ↔
      ∃ groups, List.Forall₂ (Grows m context addons) m.instanceGroups groups ∧
        n = { m with instanceGroups := groups } := by
  induction addons generalizing m with
  | nil =>
    simp [injectAll, grows_nil, List.forall₂_eq_eq_eq, eq_comm]
  | cons a rest ih =>
    -- the reserved addon is passed over, on both sides
    by_cases name : a.name = Addon.dnsName
    · rw [List.filter_cons_of_neg (by simpa using name), ih]
      rw [grows_reserved name]
    · rw [List.filter_cons_of_pos (by simpa using name), injectAll_cons_eq_none_iff]
      simp only [grows_cons name, forall₂_comp_iff, applyAddon_eq_ok_iff, ih]
      constructor
      · rintro ⟨_, ⟨middle, first, rfl⟩, groups, others, rfl⟩
        refine ⟨groups, ⟨middle, first, others.imp fun g g' grows => ?_⟩, rfl⟩
        exact grows.congr (.of_groups m middle)
      · rintro ⟨groups, ⟨middle, first, others⟩, rfl⟩
        refine ⟨_, ⟨middle, first, rfl⟩, groups, others.imp fun g g' grows => ?_, rfl⟩
        exact grows.congr (SameImages.of_groups m middle).symm

/-- Injecting jobs changes instance groups only, also where it fails. -/
theorem injectAll_frame :
    (m.injectAll context addons).manifest =
      { m with instanceGroups := (m.injectAll context addons).manifest.instanceGroups } := by
  induction addons generalizing m with
  | nil => rfl
  | cons a rest ih =>
    simp only [injectAll]
    cases applied : m.applyAddon context a with
    | error e => rfl
    | ok middle =>
      obtain ⟨groups, -, rfl⟩ := applyAddon_eq_ok_iff.mp applied
      exact ih

/-- The addons that are taken out of a manifest meanwhile are none that rules look at. -/
theorem injectAll_taken_eq_none_iff :
    ({ m with addons := [] } : Manifest).injectAll context
        (m.addons.filter fun a => a.name != Addon.dnsName) = ⟨n, none⟩ ↔
      ∃ groups, List.Forall₂ (Grows m context m.addons) m.instanceGroups groups ∧
        n = { m with addons := [], instanceGroups := groups } := by
  have same : SameImages { m with addons := [] } m := ⟨rfl, rfl⟩
  rw [injectAll_eq_none_iff]
  constructor
  · rintro ⟨groups, all, rfl⟩
    exact ⟨groups, all.imp fun _ _ grows => grows.congr same, rfl⟩
  · rintro ⟨groups, all, rfl⟩
    exact ⟨groups, all.imp fun _ _ grows => grows.congr same.symm, rfl⟩

theorem attemptAddons_of_applied (applied : m.addonsApplied = true) :
    m.attemptAddons context = ⟨m, none⟩ := by
  rw [attemptAddons, if_pos applied]

/-- The first call succeeds just if every group grows by what the addons add to it. -/
theorem attemptAddons_eq_none_iff (fresh : m.addonsApplied = false) :
    m.attemptAddons context = ⟨n, none⟩ ↔
      ∃ groups, List.Forall₂ (Grows m context m.addons) m.instanceGroups groups ∧
        n = { m with instanceGroups := groups, addonsApplied := true } := by
  rw [attemptAddons, if_neg (by simp [fresh])]
  constructor
  · intro succeeded
    dsimp only at succeeded
    split at succeeded
    · nomatch succeeded
    · next none_failed =>
      obtain ⟨groups, all, injected⟩ := injectAll_taken_eq_none_iff.mp
        (show _ = (⟨_, none⟩ : Attempt) from congrArg (Attempt.mk _) none_failed)
      refine ⟨groups, all, ?_⟩
      rw [injected] at succeeded
      exact (Attempt.mk.inj succeeded).1.symm
  · rintro ⟨groups, all, rfl⟩
    dsimp only
    rw [injectAll_taken_eq_none_iff.mpr ⟨groups, all, rfl⟩]

/-- A call that fails takes back what it has injected. -/
theorem attemptAddons_of_failure {e : PlacementError}
    (failed : (m.attemptAddons context).failure? = some e) : (m.attemptAddons context).manifest = m := by
  by_cases applied : m.addonsApplied = true
  · rw [attemptAddons_of_applied applied]
  · rw [attemptAddons, if_neg applied] at failed ⊢
    dsimp only at failed ⊢
    split at failed
    · dsimp only
      rw [injectAll_frame]
    · nomatch failed

theorem applyAddons_eq_ok {last : Manifest} :
    m.applyAddons context = .ok last ↔ m.attemptAddons context = ⟨last, none⟩ := by
  unfold applyAddons
  rcases m.attemptAddons context with ⟨k, _ | e⟩ <;> simp

/-- Applying the addons of a manifest succeeds just if the rules of each addon can be evaluated for each
    group as it stands behind the addons before it.  Every group then stays in its place and has, behind
    its own jobs, those of the addons that match it, and nothing else changes but the mark that this
    has been done.  A group becomes the same in any manifest with the same releases, stemcells and
    addons, whatever the other groups are. -/
theorem applyAddons_eq_ok_iff (fresh : m.addonsApplied = false) :
    (∀ last, m.applyAddons context = .ok last ↔
      ∃ groups, List.Forall₂ (Grows m context m.addons) m.instanceGroups groups ∧
        last = { m with instanceGroups := groups, addonsApplied := true }) ∧
    ∀ n last last' : Manifest, n.SameImages m → n.addons = m.addons → n.addonsApplied = false →
      m.applyAddons context = .ok last → n.applyAddons context = .ok last' →
      ∀ i j : Nat, m.instanceGroups[i]? = n.instanceGroups[j]? →
        last.instanceGroups[i]? = last'.instanceGroups[j]? := by
  have outcome : ∀ {m : Manifest}, m.addonsApplied = false → ∀ last,
      m.applyAddons context = .ok last ↔
        ∃ groups, List.Forall₂ (Grows m context m.addons) m.instanceGroups groups ∧
          last = { m with instanceGroups := groups, addonsApplied := true } := fun fresh _ =>
    applyAddons_eq_ok.trans (attemptAddons_eq_none_iff fresh)
  refine ⟨outcome fresh, ?_⟩
  rintro n last last' same addons fresh' applied applied' i j group
  obtain ⟨groups, all, rfl⟩ := (outcome fresh last).mp applied
  obtain ⟨groups', all', rfl⟩ := (outcome fresh' last').mp applied'
  -- what becomes of a group is determined by the group and the addons
  refine getElem?_eq_of_forall₂ all all' group fun g grown grown' grows grows' => ?_
  rw [addons] at grows'
  exact grows.unique (grows'.congr same)

/-! ## Addons that see each other's jobs -/

/-- A job of the release `os`. -/
def osJob (name : String) : Job := ⟨name, "os", .empty, .empty, .empty⟩

/-- An instance group with nothing but a name, jobs and the alias of a stemcell. -/
def plainGroup (name stemcell : String) (jobs : List Job) : InstanceGroup where
  name := name
  instances := 1
  azs := []
  jobs := jobs
  vmType := none
  vmExtensions := []
  vmResources := none
  stemcell := stemcell
  persistentDisk := none
  persistentDiskType := none
  networks := []
  update := none
  migratedFrom := []
  lifecycle := .unspecified
  properties := .empty
  env := .empty

/-- Rules that leave everything open. -/
def openRules : PlacementRules := ⟨[], [], [], [], [], [], none⟩

/-- The first addon is for the group `web`.  The second one is for groups with the job that the first one
    injects, the third one for all others, and the last one is reserved. -/
def watchingAddons : List Addon := [
  ⟨"probe", [osJob "probe"], some { openRules with instanceGroups := ["web"] }, none⟩,
  ⟨"watch", [osJob "watch"], some { openRules with jobs := [⟨"probe", "os"⟩] }, none⟩,
  ⟨"other", [osJob "other"], none, some { openRules with jobs := [⟨"watch", "os"⟩] }⟩,
  ⟨"bosh-dns", [osJob "dns"], none, none⟩]

/-- A manifest with some groups and these addons. -/
def watchingManifest (groups : List InstanceGroup) : Manifest where
  name := "a"
  directorUuid := ""
  instanceGroups := groups
  features := none
  tags := .empty
  releases := [⟨"os", "1", none, none, none⟩]
  stemcells := [⟨"default", "ubuntu", "2", none⟩]
  addons := watchingAddons
  properties := .empty
  declared := []
  update := none
  addonsApplied := false

/-- A job that an addon has injected. -/
def injectedJob (name : String) : Job := { osJob name with properties.operator.isAddon := true }

/-- A group for which the second addon is not meant. -/
def watchedDb : InstanceGroup := plainGroup "db" "default" [osJob "db"]
/-- A group that both addons are meant for. -/
def watchedWeb : InstanceGroup := plainGroup "web" "default" [osJob "web"]

/-- The group `web` gets the job of the second addon because of the first, and not that of the third one
    because of the second.  It gets the same jobs without the group `db` beside it. -/
theorem applyAddons_eq_ok_iff_watching :
    (watchingManifest [watchedDb, watchedWeb]).addonsApplied = false ∧
      List.Forall₂ (Grows (watchingManifest [watchedDb, watchedWeb]) ⟨"d", []⟩ watchingAddons)
        [watchedDb, watchedWeb]
        [watchedDb.extendedBy [injectedJob "other"],
          watchedWeb.extendedBy [injectedJob "probe", injectedJob "watch"]] ∧
      ∀ last, (watchingManifest [watchedWeb]).applyAddons ⟨"d", []⟩ = .ok last →
        last.instanceGroups[0]? =
          some (watchedWeb.extendedBy [injectedJob "probe", injectedJob "watch"]) := by
  have fresh : (watchingManifest [watchedDb, watchedWeb]).addonsApplied = false := rfl
  have applied : (watchingManifest [watchedDb, watchedWeb]).applyAddons ⟨"d", []⟩ =
      .ok { watchingManifest [watchedDb.extendedBy [injectedJob "other"],
          watchedWeb.extendedBy [injectedJob "probe", injectedJob "watch"]] with
        addonsApplied := true } := rfl
  obtain ⟨outcome, alone⟩ := @applyAddons_eq_ok_iff _ ⟨"d", []⟩ fresh
  obtain ⟨groups, grow, same⟩ := (outcome _).mp applied
  obtain rfl := congrArg Manifest.instanceGroups same
  refine ⟨fresh, grow, fun last applied' => ?_⟩
  exact (alone (watchingManifest [watchedWeb]) _ last ⟨rfl, rfl⟩ rfl rfl applied applied' 1 0 rfl).symm

end Manifest
end DeployManifest
