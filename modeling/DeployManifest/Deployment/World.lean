import DeployManifest.Table
import DeployManifest.Text.Utf8
import DeployManifest.Text.Quoted
import DeployManifest.Deployment.Resource

/-!
# What a deployment is resolved against

Documents are found in config maps and secrets of a cluster and at URLs; values of variables are
found in secrets.  A `World` says what each of these holds.

- `fetch`: a document that a deployment refers to.
- `readSecret`: a whole secret.
-/

namespace DeployManifest

open Text (Bytes)

/-- What comes of looking for something in the cluster. -/
inductive Lookup (α : Type) where
  | failed
  | absent
  | found (x : α)

/-- A secret. -/
structure StoredSecret where
  data : Table Bytes
  annotations : Table String

namespace StoredSecret

/-- The annotation of secrets whose values are JSON texts. -/
def jsonAnnotation : String := "quarks.cloudfoundry.org/json-value"

/-- Whether the values are JSON texts. -/
def isJsonValued (s : StoredSecret) : Bool := s.annotations.get? jsonAnnotation == some "true"

end StoredSecret

/-- What can be looked up: config maps and secrets, by namespace and name, and pages, by URL. -/
structure World where
  configMap : String → String → Lookup (Table String)
  secret : String → String → Lookup StoredSecret
  page : String → Option String

/-- Why a document cannot be fetched. -/
inductive FetchError where
  | retrieveResource (kind : ReferenceKind) (namespaceName name : String)
  | resourceNotFound (kind : ReferenceKind) (namespaceName name : String)
  | missingKey (kind : ReferenceKind) (namespaceName name key : String)
  | fetchUrl (url key : String)
  deriving DecidableEq, Repr

namespace FetchError

/-- How messages name a resource. -/
def resource (kind : ReferenceKind) (namespaceName name : String) : String :=
  kind.text ++ " " ++ namespaceName ++ "/" ++ name

/-- What is reported of a document that could not be fetched. -/
def message : FetchError → String
  | .retrieveResource kind space name => "failed to retrieve " ++ resource kind space name
  | .resourceNotFound kind space name => resource kind space name ++ " not found"
  | .missingKey kind space name key =>
    resource kind space name ++ " doesn't contain key " ++ Text.quote key
  | .fetchUrl url key => "failed to fetch " ++ key ++ " from url " ++ Text.quote url

end FetchError

/-- Why a secret cannot be read. -/
inductive SecretError where
  | retrieveSecret (namespaceName name : String)
  | secretNotFound (namespaceName name : String)
  deriving DecidableEq, Repr

/-- What is reported of a secret that could not be read. -/
def SecretError.message : SecretError → String
  | .retrieveSecret space name => "failed to retrieve secret " ++ space ++ "/" ++ name
  | .secretNotFound space name => "secret " ++ space ++ "/" ++ name ++ " not found"

namespace World

/-- The entry `key` of what was looked up. -/
def entry {α : Type} (kind : ReferenceKind) (namespaceName name key : String)
    (data : α → Table String) : Lookup α → Except FetchError String
  | .failed => .error (.retrieveResource kind namespaceName name)
  | .absent => .error (.resourceNotFound kind namespaceName name)
  | .found x =>
    match (data x).get? key with
    | some text => .ok text
    | none => .error (.missingKey kind namespaceName name key)

/-- The document that a reference leads to; `key` is its entry in a config map or secret. -/
def fetch (world : World) (namespaceName : String) (reference : ResourceReference)
    (key : String) : Except FetchError String :=
  let name := reference.name
  match reference.kind with
  | .configMap => entry .configMap namespaceName name key id (world.configMap namespaceName name)
  | .secret =>
    entry .secret namespaceName name key (fun s => s.data.map Text.ofBytesLossy)
      (world.secret namespaceName name)
  | .url =>
    match world.page name with
    | some text => .ok text
    | none => .error (.fetchUrl name key)

/-- A secret. -/
def readSecret (world : World) (namespaceName name : String) : Except SecretError StoredSecret :=
  match world.secret namespaceName name with
  | .failed => .error (.retrieveSecret namespaceName name)
  | .absent => .error (.secretNotFound namespaceName name)
  | .found s => .ok s

end World
end DeployManifest
