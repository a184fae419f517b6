import DeployManifest.Json.Reader
import DeployManifest.Deployment.ResolveError

/-!
# Resolving deployments

A deployment is resolved into the manifest it wants, stage by stage:

1. the manifest is fetched and the ops files are applied to it (`load`);
2. instance groups get labels for the images of their jobs;
3. implicit variables are put in, read from the secrets named after them (`implicitStage`);
4. the jobs of addons are injected;
5. explicit variables are put in, read from the secrets the deployment names (`explicitStage`);
6. aliases of domain names are checked and the update block is propagated.

Main definitions: `Resolver.resolve`, and `Resolver.implicitVariables`, which lists the secrets that
the third stage reads.
-/

namespace DeployManifest

open Yaml (Value Source)

/-- What deployments are resolved with. -/
structure Resolver where
  world : World
  /-- Whether ops files are applied one by one, so that errors tell the file. -/
  detailedOpsEvaluation : Bool
  /-- Whether every explicit variable must have a value. -/
  expectAllExplicitKeys : Bool

/-- The entry of a config map or secret that holds a manifest. -/
def manifestKey : String := "manifest"

/-- The entry of a config map or secret that holds an ops file. -/
def opsKey : String := "ops"

/-- A secret with this key stands for its value there, any other for all of its values. -/
def passwordKey : String := "password"

/-- The value of a variable that is backed by a whole secret. -/
def explicitBinding (s : StoredSecret) : Value :=
  match s.data.get? passwordKey with
  | some password => .string (Text.ofBytesLossy password)
  | none => .map (s.data.entries.map fun (key, value) =>
      (.string key, .string (Text.ofBytesLossy value)))

/-- Reads the manifest behind a stage. -/
def parseAfter (stage : Stage) (document : String) : Except StageError Manifest :=
  (Manifest.parse (.ofString document)).mapError (StageError.parseManifest stage)

/-- Prints a manifest for a stage. -/
def printFor (stage : Stage) (m : Manifest) : Except StageError String :=
  m.print.mapError (StageError.serializeManifest stage)

namespace Resolver

/-! ## Loading -/

/-- Fetches the manifest that a deployment refers to. -/
def fetchManifest (r : Resolver) (space : String) (reference : ResourceReference) :
    Except StageError String :=
  (r.world.fetch space reference manifestKey).mapError (StageError.fetchManifest reference.name)

/-- Fetches an ops file that a deployment refers to. -/
def fetchOps (r : Resolver) (space : String) (reference : ResourceReference) :
    Except StageError String :=
  (r.world.fetch space reference opsKey).mapError (StageError.fetchOps reference.name)

/-- Fetches an ops file and adds its operations. -/
def addOps (r : Resolver) (space : String) (patches : Patches) (reference : ResourceReference) :
    Except StageError Patches := do
  let file ← r.fetchOps space reference
  (patches.add (.ofString file)).mapError (StageError.addOps reference.name)

/-- Fetches the manifest and applies all ops files at once. -/
def load (r : Resolver) (space : String) (spec : DeploymentSpec) : Except StageError Manifest := do
  let document ← r.fetchManifest space spec.manifest
  let patches ← spec.ops.foldlM (r.addOps space) .none
  let document ←
    if spec.ops.isEmpty then .ok document
    else (patches.patch (.ofString document)).mapError StageError.applyOps
  parseAfter .ops document

/-- Fetches an ops file and applies it to a document. -/
def applyOpsFile (r : Resolver) (space : String) (document : String)
    (reference : ResourceReference) : Except StageError String := do
  let patches ← r.addOps space .none reference
  (patches.patch (.ofString document)).mapError (StageError.applyOpsFile reference.name)

/-- Fetches the manifest and applies the ops files one by one. -/
def loadDetailed (r : Resolver) (space : String) (spec : DeploymentSpec) :
    Except StageError Manifest := do
  let document ← r.fetchManifest space spec.manifest
  let document ← spec.ops.foldlM (r.applyOpsFile space) document
  parseAfter .ops document

/-! ## Variables -/

/-- Reads the secret that backs a variable. -/
def readSecret (r : Resolver) (space name : String) : Except StageError StoredSecret :=
  (r.world.readSecret space name).mapError (StageError.readSecret name)

/-- Where the implicit variables of a manifest are read from. -/
def secretRefs (m : Manifest) : Except StageError SecretRefs :=
  m.secretRefs.mapError StageError.listImplicitVariables

/-- The value of one implicit variable in its secret. -/
def implicitValue (secretName : String) (s : StoredSecret) (ref : SecretRef) :
    Except StageError Value :=
  match s.data.get? ref.key with
  | none => .error (.missingSecretKey secretName ref.key ref.name)
  | some bytes =>
    if s.isJsonValued then
      match Json.read? bytes with
      | some value => .ok value
      | none => .error (.decodeJsonValue secretName ref.name)
    else .ok (.string (Text.ofBytesLossy bytes))

/-- The values of the implicit variables that are read from one secret. -/
def secretBindings (r : Resolver) (space : String) (group : String × List SecretRef) :
    Except StageError (List (String × Value)) := do
  let s ← r.readSecret space group.1
  group.2.mapM fun ref => (implicitValue group.1 s ref).map fun value => (ref.name, value)

/-- The values of all implicit variables. -/
def implicitBindings (r : Resolver) (space : String) (refs : SecretRefs) :
    Except StageError (Table Value) :=
  (refs.entries.mapM (r.secretBindings space)).map fun found => Table.ofList found.flatten

/-- The tables of the given variables, each backed by a secret. -/
def explicitBindings (r : Resolver) (space : String) (vars : List VarReference) :
    Except StageError Bindings :=
  vars.mapM fun var => (r.readSecret space var.secret).map fun s =>
    Table.single var.name (explicitBinding s)

/-- Puts implicit variables in. -/
def implicitStage (r : Resolver) (space : String) (m : Manifest) : Except StageError Manifest := do
  let refs ← secretRefs m
  let table ← r.implicitBindings space refs
  let document ← printFor .implicitVariables m
  let document ← (evaluate (.ofString document) [table] ⟨false, false⟩).mapError
    StageError.evaluateImplicitVariables
  parseAfter .implicitVariables document

/-- Puts explicit variables in. -/
def explicitStage (r : Resolver) (space : String) (vars : List VarReference) (m : Manifest) :
    Except StageError Manifest := do
  let tables ← r.explicitBindings space vars
  let document ← printFor .explicitVariables m
  let document ← (evaluate (.ofString document) tables ⟨r.expectAllExplicitKeys, false⟩).mapError
    StageError.evaluateExplicitVariables
  parseAfter .explicitVariables document

/-! ## Resolution -/

/-- All stages behind loading. -/
def finish (r : Resolver) (space : String) (d : Deployment) (m : Manifest) :
    Except StageError Manifest := do
  let m ← m.addReleaseLabels.mapError StageError.addReleaseLabels
  let m ← r.implicitStage space m
  let m ← (m.applyAddons ⟨d.name, []⟩).mapError StageError.applyAddons
  let m ← r.explicitStage space d.spec.vars m
  let _ ← (Dns.aliases m).mapError StageError.validateDns
  return m.propagateUpdate

/-- Tells the deployment that an error is about. -/
def blame {α : Type} (deployment space : String) (result : Except StageError α) :
    Except ResolveError α :=
  result.mapError fun e => ⟨deployment, space, e⟩

/-- The manifest of a deployment, with all ops files applied at once. -/
def manifest (r : Resolver) (d : Deployment) (space : String) : Except ResolveError Manifest :=
  blame d.name space (r.load space d.spec >>= r.finish space d)

/-- The manifest of a deployment, with ops files applied one by one. -/
def manifestDetailed (r : Resolver) (d : Deployment) (space : String) :
    Except ResolveError Manifest :=
  blame d.name space (r.loadDetailed space d.spec >>= r.finish space d)

/-- The manifest of a deployment. -/
def resolve (r : Resolver) (d : Deployment) (space : String) : Except ResolveError Manifest :=
  if r.detailedOpsEvaluation then r.manifestDetailed d space else r.manifest d space

/-- The keys of secrets that back the implicit variables of a deployment. -/
def implicitVariables (r : Resolver) (d : Deployment) (space : String) :
    Except ResolveError (List String) :=
  blame d.name space ((r.load space d.spec >>= secretRefs).map SecretRefs.secretKeys)

/-- A document with its declared variables put in, each from the secret named after it. -/
def declaredStage (r : Resolver) (space : String) (document : Source) :
    Except StageError String := do
  let m ← (Manifest.parse document).mapError (StageError.parseManifest .ops)
  let vars := m.declared.map fun v => ⟨v.name, SecretName.ofVariable v.name⟩
  let tables ← r.explicitBindings space vars
  let document ← (evaluate document tables ⟨true, false⟩).mapError
    StageError.evaluateExplicitVariables
  let m ← parseAfter .explicitVariables document
  printFor .explicitVariables m

/-- The canonical text of a manifest with its declared variables put in. -/
def interpolateDeclared (r : Resolver) (document : Source) (space deployment : String) :
    Except ResolveError String :=
  blame deployment space (r.declaredStage space document)

end Resolver
end DeployManifest
