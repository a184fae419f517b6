import DeployManifest.Proofs.ListedSecrets

/-!
# What a resolution depends on

A resolution fetches the manifest and the ops files that a deployment refers to, and reads the secrets of
its explicit and of its implicit variables.  Which variables are implicit is found in what was fetched, so
the secrets that are read depend on other documents (`Resolver.NeedsSecret`).

`Resolver.Agrees` says that another world gives the same to all of this.  Then every step of a resolution
gives the same there, step by step along the stages, whether it succeeds or fails.  `Resolver.Consults`
lists the places where any of this is found: nothing that is kept in another place counts.

Main statement: `resolve_inWorld`.

- `Place`, `World.SameAt`: places, and worlds that are the same in one of them.
- `Resolver.NeedsSecret`, `Resolver.Consults`: the secrets and places that a resolution looks at.
- `Agrees.resolve_eq`: a resolution in a world that agrees.
-/

namespace DeployManifest

/-! ## Places -/

/-- Where something is kept that can be looked up. -/
inductive Place where
  | configMap (name : String)
  | secret (name : String)
  | page (url : String)

/-- The place that a reference leads to. -/
def ResourceReference.place (reference : ResourceReference) : Place :=
  match reference.kind with
  | .configMap => .configMap reference.name
  | .secret => .secret reference.name
  | .url => .page reference.name

namespace World

variable {world other : World} {space : String}

/-- Whether two worlds keep the same in a place. -/
def SameAt (world other : World) (space : String) : Place → Prop
  | .configMap name => other.configMap space name = world.configMap space name
  | .secret name => other.secret space name = world.secret space name
  | .page url => other.page url = world.page url

/-- Where a secret is the same, reading it gives the same. -/
theorem readSecret_of_sameAt {name : String} (same : world.SameAt other space (.secret name)) :
    other.readSecret space name = world.readSecret space name := by
  have same : other.secret space name = world.secret space name := same
  unfold readSecret
  rw [same]

/-- Where a document is the same, fetching it gives the same. -/
theorem fetch_of_sameAt {reference : ResourceReference} (same : world.SameAt other space reference.place)
    (key : String) : other.fetch space reference key = world.fetch space reference key := by
  unfold ResourceReference.place at same
  unfold fetch
  -- what is at the place is a resource of the cluster, or a page
  cases kind : reference.kind with
  | configMap =>
    rw [kind] at same
    exact congrArg (entry .configMap space reference.name key id) same
  | secret =>
    rw [kind] at same
    exact congrArg (entry .secret space reference.name key fun s => s.data.map Text.ofBytesLossy) same
  | url =>
    rw [kind] at same
    have same : other.page reference.name = world.page reference.name := same
    dsimp only
    rw [same]

end World

namespace Resolver

variable {r : Resolver} {other : World} {d : Deployment} {space : String}

/-- The same configuration in another world. -/
def inWorld (r : Resolver) (other : World) : Resolver := { r with world := other }

/-- The manifest of a deployment before any variable is put in. -/
def loadConfigured (r : Resolver) (space : String) (spec : DeploymentSpec) : Except StageError Manifest :=
  if r.detailedOpsEvaluation then r.loadDetailed space spec else r.load space spec

/-- Whether a secret is named by an implicit variable of the labelled manifest.  There is none if the
    manifest cannot be loaded or labelled. -/
def NeedsSecret (r : Resolver) (space : String) (spec : DeploymentSpec) (secret : String) : Prop :=
  ∃ m labelled names, r.loadConfigured space spec = .ok m ∧ m.addReleaseLabels = .ok labelled ∧
    labelled.implicitVariables = .ok names ∧
    ∃ name ∈ names.toList, ∃ k, SecretKey.ofVariable name = .ok k ∧ k.secret = secret

/-- Whether another world gives the same for all that a deployment refers to. -/
structure Agrees (r : Resolver) (other : World) (d : Deployment) (space : String) : Prop where
  manifest : other.fetch space d.spec.manifest manifestKey = r.world.fetch space d.spec.manifest manifestKey
  ops : ∀ file ∈ d.spec.ops, other.fetch space file opsKey = r.world.fetch space file opsKey
  explicit : ∀ var ∈ d.spec.vars, other.readSecret space var.secret = r.world.readSecret space var.secret
  implicit : ∀ secret, r.NeedsSecret space d.spec secret →
    other.readSecret space secret = r.world.readSecret space secret

/-- The places where this is found. -/
inductive Consults (r : Resolver) (d : Deployment) (space : String) : Place → Prop where
  | manifest : Consults r d space d.spec.manifest.place
  | ops {file : ResourceReference} (mem : file ∈ d.spec.ops) : Consults r d space file.place
  | explicit {var : VarReference} (mem : var ∈ d.spec.vars) : Consults r d space (.secret var.secret)
  | implicit {secret : String} (needs : r.NeedsSecret space d.spec secret) :
    Consults r d space (.secret secret)

/-- A world that is the same in all places that are consulted gives the same to everything. -/
theorem agrees_of_sameAt (same : ∀ place, r.Consults d space place → r.world.SameAt other space place) :
    r.Agrees other d space where
  manifest := World.fetch_of_sameAt (same _ .manifest) manifestKey
  ops _ mem := World.fetch_of_sameAt (same _ (.ops mem)) opsKey
  explicit _ mem := World.readSecret_of_sameAt (same _ (.explicit mem))
  implicit _ needs := World.readSecret_of_sameAt (same _ (.implicit needs))

/-! ## Loading -/

/-- Adding an ops file gives the same if fetching it does. -/
theorem addOps_inWorld {file : ResourceReference}
    (same : other.fetch space file opsKey = r.world.fetch space file opsKey) (patches : Patches) :
    (r.inWorld other).addOps space patches file = r.addOps space patches file := by
  unfold addOps
  exact bind_congr_of_ok (congrArg (Except.mapError (StageError.fetchOps file.name)) same) fun _ _ => rfl

theorem fetchManifest_inWorld (agrees : r.Agrees other d space) :
    (r.inWorld other).fetchManifest space d.spec.manifest = r.fetchManifest space d.spec.manifest :=
  congrArg (Except.mapError (StageError.fetchManifest d.spec.manifest.name)) agrees.manifest

/-- What the ops files make of it is the same, taken all at once. -/
theorem load_inWorld (agrees : r.Agrees other d space) :
    (r.inWorld other).load space d.spec = r.load space d.spec := by
  have collected : d.spec.ops.foldlM ((r.inWorld other).addOps space) .none =
      d.spec.ops.foldlM (r.addOps space) .none :=
    foldlM_congr_of_mem (fun file mem => addOps_inWorld (agrees.ops file mem)) .none
  unfold load
  refine bind_congr_of_ok (fetchManifest_inWorld agrees) fun document _ => ?_
  exact bind_congr_of_ok collected fun _ _ => rfl

/-- Applying one ops file gives the same if fetching it does. -/
theorem applyOpsFile_inWorld {file : ResourceReference}
    (same : other.fetch space file opsKey = r.world.fetch space file opsKey) (document : String) :
    (r.inWorld other).applyOpsFile space document file = r.applyOpsFile space document file := by
  unfold applyOpsFile
  exact bind_congr_of_ok (addOps_inWorld same .none) fun _ _ => rfl

/-- What the ops files make of it is the same, taken one by one. -/
theorem loadDetailed_inWorld (agrees : r.Agrees other d space) :
    (r.inWorld other).loadDetailed space d.spec = r.loadDetailed space d.spec := by
  unfold loadDetailed
  refine bind_congr_of_ok (fetchManifest_inWorld agrees) fun document _ => ?_
  refine bind_congr_of_ok (foldlM_congr_of_mem ?_ document) fun _ _ => rfl
  exact fun file mem => applyOpsFile_inWorld (agrees.ops file mem)

/-- So is what is loaded in either way. -/
theorem loadConfigured_inWorld (agrees : r.Agrees other d space) :
    (r.inWorld other).loadConfigured space d.spec = r.loadConfigured space d.spec := by
  unfold loadConfigured
  rw [load_inWorld agrees, loadDetailed_inWorld agrees]
  rfl

/-! ## Variables -/

theorem readSecret_inWorld {name : String}
    (same : other.readSecret space name = r.world.readSecret space name) :
    (r.inWorld other).readSecret space name = r.readSecret space name :=
  congrArg (Except.mapError (StageError.readSecret name)) same

/-- The values of implicit variables are the same. -/
theorem implicitBindings_inWorld {refs : SecretRefs}
    (same : ∀ group ∈ refs.entries, other.readSecret space group.1 = r.world.readSecret space group.1) :
    (r.inWorld other).implicitBindings space refs = r.implicitBindings space refs := by
  have found : refs.entries.mapM ((r.inWorld other).secretBindings space) =
      refs.entries.mapM (r.secretBindings space) := by
    refine mapM_congr_of_mem fun group mem => ?_
    unfold secretBindings
    exact bind_congr_of_ok (readSecret_inWorld (same group mem)) fun _ _ => rfl
  unfold implicitBindings
  rw [found]

/-- The values of explicit variables are the same. -/
theorem explicitBindings_inWorld {vars : List VarReference}
    (same : ∀ var ∈ vars, other.readSecret space var.secret = r.world.readSecret space var.secret) :
    (r.inWorld other).explicitBindings space vars = r.explicitBindings space vars := by
  unfold explicitBindings
  refine mapM_congr_of_mem fun var mem => ?_
  rw [readSecret_inWorld (same var mem)]

/-- The secrets that implicit variables are grouped by are those that the variables name. -/
theorem exists_of_secretRefs {m : Manifest} {refs : SecretRefs} (grouped : secretRefs m = .ok refs) :
    ∃ names, m.implicitVariables = .ok names ∧ ∀ group ∈ refs.entries,
      ∃ name ∈ names.toList, ∃ k, SecretKey.ofVariable name = .ok k ∧ k.secret = group.1 := by
  obtain ⟨names, found, grouped⟩ := Manifest.secretRefs_eq_ok_iff.mp (mapError_eq_ok.mp grouped)
  have collects := SecretRefs.collects_ofVariables grouped
  refine ⟨names, found, fun group there => ?_⟩
  obtain ⟨ref, in_group⟩ := List.exists_mem_of_ne_nil _ (collects.nonempty group there)
  obtain ⟨mem, key⟩ := collects.of_mem there in_group
  exact ⟨ref.name, mem, _, key, rfl⟩

/-- So is the manifest behind the implicit variables. -/
theorem implicitStage_inWorld {m labelled : Manifest} (agrees : r.Agrees other d space)
    (loaded : r.loadConfigured space d.spec = .ok m) (labels : m.addReleaseLabels = .ok labelled) :
    (r.inWorld other).implicitStage space labelled = r.implicitStage space labelled := by
  unfold implicitStage
  refine bind_congr_of_ok rfl fun refs grouped => ?_
  obtain ⟨names, implicit, named⟩ := exists_of_secretRefs grouped
  refine bind_congr_of_ok (implicitBindings_inWorld fun group there => ?_) fun _ _ => rfl
  exact agrees.implicit group.1 ⟨m, labelled, names, loaded, labels, implicit, named group there⟩

theorem explicitStage_inWorld (agrees : r.Agrees other d space) (m : Manifest) :
    (r.inWorld other).explicitStage space d.spec.vars m = r.explicitStage space d.spec.vars m := by
  unfold explicitStage
  exact bind_congr_of_ok (explicitBindings_inWorld agrees.explicit) fun _ _ => rfl

/-! ## Resolution -/

/-- All stages behind the loading give the same. -/
theorem finish_inWorld {m : Manifest} (agrees : r.Agrees other d space)
    (loaded : r.loadConfigured space d.spec = .ok m) :
    (r.inWorld other).finish space d m = r.finish space d m := by
  unfold finish
  refine bind_congr_of_ok rfl fun labelled labels => ?_
  refine bind_congr_of_ok (implicitStage_inWorld agrees loaded (mapError_eq_ok.mp labels)) fun filled _ => ?_
  refine bind_congr_of_ok rfl fun applied _ => ?_
  exact bind_congr_of_ok (explicitStage_inWorld agrees applied) fun _ _ => rfl

theorem resolve_eq_blame (r : Resolver) (d : Deployment) (space : String) :
    r.resolve d space = blame d.name space (r.loadConfigured space d.spec >>= r.finish space d) := by
  unfold resolve loadConfigured
  split <;> rfl

/-- A resolution gives the same in a world that agrees. -/
theorem Agrees.resolve_eq (agrees : r.Agrees other d space) :
    (r.inWorld other).resolve d space = r.resolve d space := by
  rw [resolve_eq_blame, resolve_eq_blame]
  refine congrArg (blame d.name space) ?_
  exact bind_congr_of_ok (loadConfigured_inWorld agrees) fun m loaded => finish_inWorld agrees loaded

/-- A resolution gives the same manifest or the same error in every world that gives the same for what
    the deployment refers to and for the secrets of its implicit variables.  So nothing counts that is kept
    in other places. -/
theorem resolve_inWorld (r : Resolver) (other : World) (d : Deployment) (space : String) :
    (r.Agrees other d space → (r.inWorld other).resolve d space = r.resolve d space) ∧
      ((∀ place, r.Consults d space place → r.world.SameAt other space place) →
        (r.inWorld other).resolve d space = r.resolve d space) :=
  ⟨Agrees.resolve_eq, fun same => (agrees_of_sameAt same).resolve_eq⟩

/-! ## A deployment with both kinds of variables -/

/-- A document that asks for one variable. -/
def consultedText : String := "tags:\n  a: ((b))\n"

/-- The manifest that it is read as. -/
def consultedManifest : Manifest where
  name := ""
  directorUuid := ""
  instanceGroups := []
  features := none
  tags := .single "a" "((b))"
  releases := []
  stemcells := []
  addons := []
  properties := .empty
  declared := []
  update := none
  addonsApplied := false

/-- It has an ops file without operations, and the implicit variable `b` beside the explicit `c`. -/
def consultedDeployment : Deployment :=
  ⟨⟨some "d", none, none⟩, ⟨⟨"m", .configMap⟩, [⟨"o", .url⟩], [⟨"c", "stored"⟩]⟩⟩

/-- What the deployment consults, and the same contents in all other places. -/
def consultedWorld (config : Lookup (Table String)) (stored : Lookup StoredSecret) (text : Option String) :
    World where
  configMap space name :=
    if space == "cf" && name == "m" then .found (.single manifestKey consultedText) else config
  secret space name :=
    if space == "cf" && name == "var-b" then .found ⟨.single SecretKey.defaultKey [0x31], .empty⟩
    else if space == "cf" && name == "stored" then .found ⟨.single passwordKey [0x32], .empty⟩
    else stored
  page url := if url == "o" then some "[]" else text

/-- A resolver in a world with this document. -/
def consultedResolver : Resolver := ⟨consultedWorld .absent .absent none, false, true⟩

/-- There is another manifest, another ops file and a value for `c` as an implicit variable. -/
def crowdedWorld : World :=
  consultedWorld (.found (.single manifestKey "name: e")) (.found ⟨.single SecretKey.defaultKey [0x33], .empty⟩)
    (some "- type: remove")

/-- The manifest is loaded from this document. -/
theorem loadConfigured_consulted :
    consultedResolver.loadConfigured "cf" consultedDeployment.spec = .ok consultedManifest := by
  have parsed : Manifest.parse (.ofString consultedText) = .ok consultedManifest :=
    Manifest.parse_eq_ok_of_toValue rfl (by decide +kernel)
  have patched : Patches.none.patch (.ofString consultedText) = .ok consultedText := by decide +kernel
  have collected : consultedDeployment.spec.ops.foldlM (consultedResolver.addOps "cf") .none = .ok .none := rfl
  refine bind_eq_ok.mpr ⟨consultedText, rfl, bind_eq_ok.mpr ⟨.none, collected, ?_⟩⟩
  exact bind_eq_ok.mpr ⟨consultedText, mapError_eq_ok.mpr patched, mapError_eq_ok.mpr parsed⟩

/-- Of all secrets only that of the variable is needed. -/
theorem needsSecret_consulted_iff {secret : String} :
    consultedResolver.NeedsSecret "cf" consultedDeployment.spec secret ↔ secret = "var-b" := by
  have labels : consultedManifest.addReleaseLabels = .ok consultedManifest := rfl
  have implicit : consultedManifest.implicitVariables = .ok (.ofNames ["b"]) :=
    (Manifest.implicitVariables_eq_ok_of_mark rfl (by decide +kernel)).trans (by decide +kernel)
  have key : SecretKey.ofVariable "b" = .ok ⟨"var-b", SecretKey.defaultKey⟩ := by decide +kernel
  constructor
  · rintro ⟨m, labelled, names, loaded, labelled_ok, found, name, mem, k, key_ok, rfl⟩
    obtain rfl := Except.ok.inj (loadConfigured_consulted.symm.trans loaded)
    obtain rfl := Except.ok.inj (labels.symm.trans labelled_ok)
    obtain rfl := Except.ok.inj (implicit.symm.trans found)
    obtain rfl := List.mem_singleton.mp (NameSet.mem_ofNames.mp mem)
    rw [← Except.ok.inj (key.symm.trans key_ok)]
  · rintro rfl
    have mem : "b" ∈ (NameSet.ofNames ["b"]).toList := NameSet.mem_ofNames.mpr List.mem_cons_self
    exact ⟨_, _, _, loadConfigured_consulted, labels, implicit, "b", mem, _, key, rfl⟩

/-- A world with other things in it is the same in all places that are consulted. -/
theorem sameAt_consulted (place : Place)
    (consults : consultedResolver.Consults consultedDeployment "cf" place) :
    consultedResolver.world.SameAt crowdedWorld "cf" place := by
  cases consults with
  | manifest => rfl
  | ops mem =>
    obtain rfl := List.mem_singleton.mp mem
    rfl
  | explicit mem =>
    obtain rfl := List.mem_singleton.mp mem
    rfl
  | implicit needs =>
    obtain rfl := needsSecret_consulted_iff.mp needs
    rfl

/-- So the resolution gives the same there, although another secret is different. -/
theorem resolve_inWorld_consulted :
    consultedResolver.NeedsSecret "cf" consultedDeployment.spec "var-b" ∧
      ¬ consultedResolver.world.SameAt crowdedWorld "cf" (.secret "var-c") ∧
      consultedResolver.Agrees crowdedWorld consultedDeployment "cf" ∧
      (∀ place, consultedResolver.Consults consultedDeployment "cf" place →
        consultedResolver.world.SameAt crowdedWorld "cf" place) ∧
      (consultedResolver.inWorld crowdedWorld).resolve consultedDeployment "cf" =
        consultedResolver.resolve consultedDeployment "cf" := by
  have agrees := agrees_of_sameAt sameAt_consulted
  have same := (resolve_inWorld consultedResolver crowdedWorld consultedDeployment "cf").1 agrees
  exact ⟨needsSecret_consulted_iff.mpr rfl, nofun, agrees, sameAt_consulted, same⟩

end Resolver
end DeployManifest
