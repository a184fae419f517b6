import DeployManifest.Manifest.Dns
import DeployManifest.Variables.Implicit
import DeployManifest.Evaluation.Document
import DeployManifest.Deployment.World

/-!
# Deployments that cannot be resolved

Every stage of a resolution has its own errors, which tell the document or variable that they are
about and hold what caused them.

- `Stage`: the steps between which a manifest is parsed and printed again.
- `StageError`: what may go wrong in one stage, each error with its cause.
- `ResolveError`: a failed resolution, which tells how far it has come.
-/

namespace DeployManifest

open Yaml (DocumentError)

/-- The stages behind which a manifest is read again. -/
inductive Stage where
  | ops
  | implicitVariables
  | explicitVariables
  deriving DecidableEq, Repr

/-- What a stage is called in messages. -/
def Stage.text : Stage → String
  | .ops => "applying ops files"
  | .implicitVariables => "interpolating implicit variables"
  | .explicitVariables => "interpolating explicit variables"

/-- Why a stage failed. -/
inductive StageError where
  | fetchManifest (name : String) (cause : FetchError)
  | fetchOps (name : String) (cause : FetchError)
  | addOps (name : String) (cause : EvaluationError)
  | applyOps (cause : EvaluationError)
  | applyOpsFile (name : String) (cause : EvaluationError)
  | parseManifest (stage : Stage) (cause : DocumentError)
  | serializeManifest (stage : Stage) (cause : DocumentError)
  | addReleaseLabels (cause : LookupError)
  | listImplicitVariables (cause : VariableError)
  | readSecret (secret : String) (cause : SecretError)
  | missingSecretKey (secret key name : String)
  | decodeJsonValue (secret name : String)
  | evaluateImplicitVariables (cause : EvaluationError)
  | applyAddons (cause : PlacementError)
  | evaluateExplicitVariables (cause : EvaluationError)
  | validateDns (cause : Dns.AliasError)
  deriving DecidableEq, Repr

/-- What is reported of the stage itself, without the cause. -/
def StageError.message : StageError → String
  | .fetchManifest name _ => "failed to fetch manifest " ++ Text.quote name
  | .fetchOps name _ => "failed to fetch ops file " ++ Text.quote name
  | .addOps name _ => "failed to add ops file " ++ Text.quote name
  | .applyOps _ => "failed to apply ops files"
  | .applyOpsFile name _ => "failed to apply ops file " ++ Text.quote name
  | .parseManifest stage _ => "failed to parse manifest after " ++ stage.text
  | .serializeManifest stage _ => "failed to serialize manifest for " ++ stage.text
  | .addReleaseLabels _ => "failed to add release labels"
  | .listImplicitVariables _ => "failed to list implicit variables"
  | .readSecret secret _ => "failed to read secret " ++ Text.quote secret
  | .missingSecretKey secret key name =>
    "secret " ++ Text.quote secret ++ " doesn't contain key " ++ Text.quote key ++
      " of variable " ++ Text.quote name
  | .decodeJsonValue secret name =>
    "failed to decode JSON value of variable " ++ Text.quote name ++ " in secret " ++
      Text.quote secret
  | .evaluateImplicitVariables _ => "failed to interpolate implicit variables"
  | .applyAddons _ => "failed to apply addons"
  | .evaluateExplicitVariables _ => "failed to interpolate explicit variables"
  | .validateDns _ => "invalid DNS addon configuration"

/-- A deployment that cannot be resolved. -/
structure ResolveError where
  deployment : String
  namespaceName : String
  cause : StageError
  deriving DecidableEq, Repr

/-- What is reported of a resolution, without the cause. -/
def ResolveError.message (e : ResolveError) : String :=
  "failed to resolve deployment " ++ Text.quote e.deployment ++ " in namespace " ++
    Text.quote e.namespaceName

end DeployManifest
