import DeployManifest.Proofs.ReleaseLabels
import DeployManifest.Proofs.ManifestRoundTrip
import DeployManifest.Proofs.StagedOps
import DeployManifest.Proofs.SecretKeys

/-!
# Secrets that are listed and secrets that are read

`Resolver.implicitVariables` lists the keys of secrets that the implicit variables of a deployment are
read from, for whoever has to prepare these secrets.  A resolution discovers its implicit variables
behind the release labels (`Resolver.discover`), while the list is made without labels.  So there is a
list even if the labels cannot be made and nothing is ever read
(`not_forall_implicitVariables_iff_discover`).

`Resolver.ReadsExactly` says which keys a reading of implicit variables goes through: it needs all of
them, and nothing else in the secrets counts.

Main statement: `implicitVariables_eq_discover`.  Where the labels can be made and need no variable of
their own, what is listed is what a resolution reads.

- `Resolver.discover`: the implicit variables that a resolution reads, grouped.
- `Resolver.ListsReads`, `Resolver.ReadsExactly`: lists of what is read.
- `LabelsFit`: release labels that need no variables of their own.
-/

namespace DeployManifest

open Yaml (Value)

/-- A manifest is read from a document if its tree is. -/
theorem Manifest.parse_eq_ok_of_toValue {source : Yaml.Source} {m : Manifest}
    (known : Manifest.ofView? (.tree m.toValue) = some m)
    (read : (Manifest.parse source).map Manifest.toValue = .ok m.toValue) :
    Manifest.parse source = .ok m := by
  obtain ⟨n, parsed, same⟩ := map_eq_ok.mp read
  obtain ⟨view, viewed⟩ := Manifest.exists_of_parse parsed
  have reads : Manifest.ofView? (.tree n.toValue) = some n :=
    (Manifest.recovers (Manifest.jobsAreFlat_of_ofView? viewed)).reads
  rw [same, known] at reads
  rw [parsed, Option.some.inj reads]

/-- Whether a secret has a value under a key. -/
def World.Holds (world : World) (space : String) (k : SecretKey) (value : Value) : Prop :=
  ∃ s, world.secret space k.secret = .found s ∧ s.Gives k.key value

namespace Resolver

variable {r other : Resolver} {space : String} {d : Deployment} {refs : SecretRefs} {names : List String}

/-- Whether some keys are all that is read for variables: each of them is needed, and nothing else in the
    secrets makes a difference to the values. -/
structure ReadsExactly (r : Resolver) (space : String) (refs : SecretRefs) (keys : List SecretKey) : Prop where
  needed : (∃ table, r.implicitBindings space refs = .ok table) ↔
    ∀ k ∈ keys, ∃ value, r.world.Holds space k value
  only : ∀ other : Resolver,
    (∀ k ∈ keys, ∀ value, other.world.Holds space k value ↔ r.world.Holds space k value) →
    ∀ table, other.implicitBindings space refs = .ok table ↔ r.implicitBindings space refs = .ok table

/-- The values that are read carry over to other secrets that hold them under the same keys. -/
theorem implicitBindings_of_holds (collects : refs.Collects names)
    (holds : ∀ k ∈ refs.readKeys, ∀ value, r.world.Holds space k value → other.world.Holds space k value)
    {table : Table Value} (read : r.implicitBindings space refs = .ok table) :
    other.implicitBindings space refs = .ok table := by
  obtain ⟨found, all, same⟩ := map_eq_ok.mp read
  refine map_eq_ok.mpr ⟨found, mapM_eq_ok_iff.mpr ?_, same⟩
  refine forall₂_imp_of_mem (mapM_eq_ok_iff.mp all) fun group there pairs bindings => ?_
  obtain ⟨s, stored, values⟩ := secretBindings_eq_ok_iff.mp bindings
  have carried : ∀ ref ∈ group.2, ∀ value, s.Gives ref.key value →
      other.world.Holds space ⟨group.1, ref.key⟩ value := fun ref mem value gives =>
    holds _ (SecretRefs.mem_readKeys there mem) value ⟨s, stored, gives⟩
  -- the first variable of the group says that the other secret is there
  obtain ⟨first, mem_first⟩ := List.exists_mem_of_ne_nil _ (collects.nonempty group there)
  obtain ⟨_, -, value, gives, -⟩ := exists_of_mem_left values mem_first
  obtain ⟨s', stored', -⟩ := carried first mem_first value gives
  refine secretBindings_eq_ok_iff.mpr ⟨s', stored', ?_⟩
  refine forall₂_imp_of_mem values fun ref mem pair ⟨value, gives, bound⟩ => ?_
  obtain ⟨s'', stored'', gives'⟩ := carried ref mem value gives
  obtain rfl := Lookup.found.inj (stored'.symm.trans stored'')
  exact ⟨value, gives', bound⟩

/-- A reading goes through the keys of its variables. -/
theorem readsExactly_readKeys (collects : refs.Collects names) :
    r.ReadsExactly space refs refs.readKeys where
  needed := by
    rw [exists_implicitBindings_iff collects]
    constructor
    · intro backed k mem
      obtain ⟨p, there, rfl⟩ := List.mem_map.mp mem
      obtain ⟨value, found, s, key, stored, gives⟩ :=
        backed p.2.name (collects.whole.mem_iff.mp (List.mem_map_of_mem there))
      obtain rfl := Except.ok.inj ((collects.keyed p there).symm.trans key)
      exact ⟨value, s, stored, gives⟩
    · intro held name mem
      obtain ⟨p, there, rfl⟩ := List.mem_map.mp (collects.whole.mem_iff.mpr mem)
      obtain ⟨value, s, stored, gives⟩ := held _ (List.mem_map_of_mem there)
      exact ⟨value, _, s, collects.keyed p there, stored, gives⟩
  -- what is found under other keys is not looked at
  only other same table :=
    ⟨implicitBindings_of_holds collects fun k mem value => (same k mem value).mp,
      implicitBindings_of_holds collects fun k mem value => (same k mem value).mpr⟩

/-! ## Discovery behind the labels -/

/-- The manifest that the implicit variables of a deployment are discovered in. -/
def labelled (r : Resolver) (space : String) (spec : DeploymentSpec) : Except StageError Manifest := do
  let m ← r.load space spec
  m.addReleaseLabels.mapError StageError.addReleaseLabels

/-- Where a resolution reads implicit variables from. -/
def discover (r : Resolver) (space : String) (spec : DeploymentSpec) : Except StageError SecretRefs :=
  r.labelled space spec >>= secretRefs

/-- A labelled manifest whose implicit variables cannot be put in fails the resolution. -/
theorem manifest_of_implicitStage_error {m : Manifest} {e : StageError}
    (found : r.labelled space d.spec = .ok m) (failed : r.implicitStage space m = .error e) :
    r.manifest d space = blame d.name space (.error e) := by
  obtain ⟨loaded, load_ok, labelled⟩ := bind_eq_ok.mp found
  refine congrArg (blame d.name space) (bind_eq_error.mpr (.inr ⟨loaded, load_ok, ?_⟩))
  exact bind_eq_error.mpr (.inr ⟨m, labelled, bind_eq_error.mpr (.inl failed)⟩)

/-- A resolution fails where nothing can be discovered. -/
theorem manifest_of_discover_error {e : StageError} (failed : r.discover space d.spec = .error e) :
    r.manifest d space = blame d.name space (.error e) := by
  rcases bind_eq_error.mp failed with failed | ⟨m, found, failed⟩
  · refine congrArg (blame d.name space) (bind_eq_error.mpr ?_)
    rcases bind_eq_error.mp failed with failed | ⟨loaded, load_ok, failed⟩
    · exact .inl failed
    · exact .inr ⟨loaded, load_ok, bind_eq_error.mpr (.inl failed)⟩
  · exact manifest_of_implicitStage_error found (bind_eq_error.mpr (.inl failed))

/-- A resolution fails where something that was discovered cannot be read. -/
theorem manifest_of_implicitBindings_error {e : StageError} (found : r.discover space d.spec = .ok refs)
    (failed : r.implicitBindings space refs = .error e) :
    r.manifest d space = blame d.name space (.error e) := by
  obtain ⟨m, labelled, discovered⟩ := bind_eq_ok.mp found
  exact manifest_of_implicitStage_error labelled
    (bind_eq_error.mpr (.inr ⟨refs, discovered, bind_eq_error.mpr (.inl failed)⟩))

/-- What is discovered are the implicit variables of some manifest. -/
theorem exists_collects_of_discover (found : r.discover space d.spec = .ok refs) :
    ∃ names, refs.Collects names := by
  obtain ⟨m, -, discovered⟩ := bind_eq_ok.mp found
  obtain ⟨names, -, grouped⟩ := Manifest.secretRefs_eq_ok_iff.mp (mapError_eq_ok.mp discovered)
  exact ⟨_, SecretRefs.collects_ofVariables grouped⟩

/-- Labels that fit change nothing about what is discovered. -/
theorem load_bind_secretRefs_eq_discover
    (fit : ∀ m, r.load space d.spec = .ok m → (∃ labelled, m.addReleaseLabels = .ok labelled) ∧ m.LabelsFit) :
    (r.load space d.spec >>= secretRefs) = r.discover space d.spec := by
  unfold discover labelled
  cases loaded : r.load space d.spec with
  | error e => rfl
  | ok m =>
    obtain ⟨⟨labelled, done⟩, fit⟩ := fit m loaded
    -- labels that fit bring no further variables
    have same : labelled.implicitVariables = m.implicitVariables :=
      Manifest.implicitVariables_of_addReleaseLabels fit done
    have refs_same : secretRefs m = secretRefs labelled := by
      unfold secretRefs Manifest.secretRefs
      rw [same]
    change secretRefs m = m.addReleaseLabels.mapError StageError.addReleaseLabels >>= secretRefs
    rw [done]
    exact refs_same

/-! ## Lists of what is read -/

/-- Whether a list names what a resolution reads for the variables it has discovered. -/
structure ListsReads (r : Resolver) (d : Deployment) (space : String) (refs : SecretRefs)
    (listed : List String) : Prop where
  names : listed = refs.readKeys.map SecretKey.listed
  /-- No other key would be listed in the same way. -/
  told : ∀ k : SecretKey, '/' ∉ k.secret.toList → (k.listed ∈ listed ↔ k ∈ refs.readKeys)
  reads : r.ReadsExactly space refs refs.readKeys
  /-- What is not there to be read stops the resolution. -/
  stops : ∀ e, r.implicitBindings space refs = .error e →
    r.manifest d space = blame d.name space (.error e)

/-- The keys of groups that a resolution discovers are those it reads. -/
theorem listsReads_secretKeys (found : r.discover space d.spec = .ok refs) :
    r.ListsReads d space refs refs.secretKeys := by
  obtain ⟨names, collects⟩ := exists_collects_of_discover found
  refine ⟨refs.secretKeys_eq, fun k clean_k => ⟨fun mem => ?_, fun mem => ?_⟩,
    readsExactly_readKeys collects, fun _ => manifest_of_implicitBindings_error found⟩
  · rw [refs.secretKeys_eq] at mem
    obtain ⟨other, there, same⟩ := List.mem_map.mp mem
    rwa [← SecretKey.listed_inj (collects.slash_not_mem there) clean_k same]
  · rw [refs.secretKeys_eq]
    exact List.mem_map_of_mem mem

/-- Where the release labels can be made and need no variables of their own, the keys of secrets that
    are listed are those that a resolution discovers, which is where the resolution fails if there is
    none to be listed.  What is listed is just what the resolution goes on to read. -/
theorem implicitVariables_eq_discover (r : Resolver) (d : Deployment) (space : String)
    (fit : ∀ m, r.load space d.spec = .ok m → (∃ labelled, m.addReleaseLabels = .ok labelled) ∧ m.LabelsFit) :
    r.implicitVariables d space =
      blame d.name space ((r.discover space d.spec).map SecretRefs.secretKeys) ∧
    (∀ e, r.discover space d.spec = .error e → r.manifest d space = blame d.name space (.error e)) ∧
    ∀ refs, r.discover space d.spec = .ok refs → r.ListsReads d space refs refs.secretKeys := by
  refine ⟨?_, fun _ => manifest_of_discover_error, fun _ => listsReads_secretKeys⟩
  unfold implicitVariables
  rw [load_bind_secretRefs_eq_discover fit]

/-- A manifest with one job in one group. -/
def listingManifest (releases : List Release) (job : Job) : Manifest where
  name := ""
  directorUuid := ""
  instanceGroups := [{
    name := "web"
    instances := 0
    azs := []
    jobs := [job]
    vmType := none
    vmExtensions := []
    vmResources := none
    stemcell := ""
    persistentDisk := none
    persistentDiskType := none
    networks := []
    update := none
    migratedFrom := []
    lifecycle := .unspecified
    properties := .empty
    env := .empty }]
  features := none
  tags := .empty
  releases := releases
  stemcells := []
  addons := []
  properties := .empty
  declared := []
  update := none
  addonsApplied := false

/-- Nothing but a manifest. -/
def listingResolver (text : String) : Resolver where
  world := {
    configMap := fun _ _ => .found (.single manifestKey text)
    secret := fun _ _ => .absent
    page := fun _ => none }
  detailedOpsEvaluation := false
  expectAllExplicitKeys := false

/-- A deployment with a manifest and nothing else. -/
def listingDeployment : Deployment := ⟨⟨some "d", none, none⟩, ⟨⟨"m", .configMap⟩, [], []⟩⟩

/-- Its manifest is the one the text is parsed as. -/
theorem load_listing {text : String} {m : Manifest} (parsed : Manifest.parse (.ofString text) = .ok m) :
    (listingResolver text).load "cf" listingDeployment.spec = .ok m :=
  bind_eq_ok.mpr ⟨text, rfl, bind_eq_ok.mpr ⟨.none, rfl, bind_eq_ok.mpr ⟨text, rfl,
    mapError_eq_ok.mpr parsed⟩⟩⟩

/-- Its list is made from the implicit variables of this manifest. -/
theorem implicitVariables_listing {text : String} {m : Manifest} {implicit : NameSet} {keys : List String}
    (parsed : Manifest.parse (.ofString text) = .ok m) (found : m.implicitVariables = .ok implicit)
    (grouped : (SecretRefs.ofVariables implicit.toList).map SecretRefs.secretKeys = .ok keys) :
    (listingResolver text).implicitVariables listingDeployment "cf" = .ok keys := by
  obtain ⟨refs, grouped, same⟩ := map_eq_ok.mp grouped
  have discovered : secretRefs m = .ok refs :=
    mapError_eq_ok.mpr (Manifest.secretRefs_eq_ok_iff.mpr ⟨implicit, found, grouped⟩)
  exact blame_eq_ok.mpr (map_eq_ok.mpr ⟨refs, bind_eq_ok.mpr ⟨m, load_listing parsed, discovered⟩, same⟩)

/-- The version of a release is a variable, and becomes part of a label. -/
def labelledText : String :=
  "releases:\n- name: nats\n  version: ((nats/tag))\n  stemcell:\n    os: suse\n    version: a\n" ++
  "instance_groups:\n- name: web\n  jobs:\n  - name: nats\n    release: nats\n"

/-- A manifest whose images can be told. -/
def labelledManifest : Manifest :=
  listingManifest [⟨"nats", "((nats/tag))", none, none, some ⟨"suse", "a"⟩⟩]
    ⟨"nats", "nats", .empty, .empty, .empty⟩

/-- The key that is listed for it is the one that a resolution reads. -/
theorem implicitVariables_eq_discover_labelled :
    (listingResolver labelledText).implicitVariables listingDeployment "cf" = .ok ["var-nats/tag"] ∧
    ∃ refs, (listingResolver labelledText).discover "cf" listingDeployment.spec = .ok refs ∧
      (listingResolver labelledText).ListsReads listingDeployment "cf" refs ["var-nats/tag"] := by
  have parsed : Manifest.parse (.ofString labelledText) = .ok labelledManifest :=
    Manifest.parse_eq_ok_of_toValue rfl (by decide +kernel)
  have implicit : labelledManifest.implicitVariables = .ok (.ofNames ["nats/tag"]) :=
    (Manifest.implicitVariables_eq_ok_of_mark rfl (by decide +kernel)).trans (by decide +kernel)
  have labels_fit : labelledManifest.LabelsFit := by
    intro g mem_groups job mem_jobs label made
    obtain rfl := List.mem_singleton.mp mem_groups
    obtain rfl := List.mem_singleton.mp mem_jobs
    obtain rfl : ("app.kubernetes.io/version-image-nats", "suse-a-((nats/tag))") = label := Except.ok.inj made
    refine ⟨by decide +kernel, by decide +kernel, fun names found => ?_, nofun⟩
    obtain rfl := Except.ok.inj (implicit.symm.trans found)
    decide +kernel
  have fit : ∀ m, (listingResolver labelledText).load "cf" listingDeployment.spec = .ok m →
      (∃ labelled, m.addReleaseLabels = .ok labelled) ∧ m.LabelsFit := by
    intro m loaded
    obtain rfl := Except.ok.inj ((load_listing parsed).symm.trans loaded)
    exact ⟨⟨_, rfl⟩, labels_fit⟩
  have listed : (listingResolver labelledText).implicitVariables listingDeployment "cf" =
      .ok ["var-nats/tag"] := implicitVariables_listing parsed implicit (by decide +kernel)
  obtain ⟨same, -, reads⟩ := implicitVariables_eq_discover _ listingDeployment "cf" fit
  obtain ⟨refs, found, keys⟩ := map_eq_ok.mp (blame_eq_ok.mp (same.symm.trans listed))
  have reads := reads refs found
  rw [keys] at reads
  exact ⟨listed, refs, found, reads⟩

/-- The release of a job is missing. -/
def unlabelledText : String :=
  "instance_groups:\n- name: web\n  jobs:\n  - name: j\n    release: missing\n" ++
  "    properties:\n      p: ((foo))\n"

/-- A manifest with a job whose release is missing. -/
def unlabelledManifest : Manifest :=
  listingManifest [] ⟨"j", "missing", .empty, .empty, ⟨.empty, .single "p" (.string "((foo))")⟩⟩

/-- There may be something to be listed although nothing is discovered for lack of labels. -/
theorem not_forall_implicitVariables_iff_discover :
    ¬ ∀ (r : Resolver) (d : Deployment) (space : String), r.detailedOpsEvaluation = false →
      ((∃ names, r.implicitVariables d space = .ok names) ↔
        ∃ refs, r.discover space d.spec = .ok refs) := by
  intro all
  have parsed : Manifest.parse (.ofString unlabelledText) = .ok unlabelledManifest :=
    Manifest.parse_eq_ok_of_toValue rfl (by decide +kernel)
  have implicit : unlabelledManifest.implicitVariables = .ok (.ofNames ["foo"]) :=
    (Manifest.implicitVariables_eq_ok_of_mark rfl (by decide +kernel)).trans (by decide +kernel)
  have listed : (listingResolver unlabelledText).implicitVariables listingDeployment "cf" =
      .ok ["var-foo"] := implicitVariables_listing parsed implicit (by decide +kernel)
  have unlabelled : unlabelledManifest.addReleaseLabels = .error (.releaseNotFound "missing") := rfl
  obtain ⟨refs, found⟩ := (all _ listingDeployment "cf" rfl).mp ⟨_, listed⟩
  obtain ⟨labelled, made, -⟩ := bind_eq_ok.mp found
  obtain ⟨m, loaded, made⟩ := bind_eq_ok.mp made
  obtain rfl := Except.ok.inj ((load_listing parsed).symm.trans loaded)
  -- discovery labels the manifest first, and the release of its job is missing
  rw [unlabelled] at made
  nomatch made

end Resolver
end DeployManifest
