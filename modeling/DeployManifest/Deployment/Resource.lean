import DeployManifest.Yaml.View

/-!
# Deployment resources

A deployment is described by a resource of the cluster: where its manifest and ops files are found,
and which secrets hold the values of its explicit variables.

- `ResourceReference`: a config map, a secret or a URL that holds a document.
- `VarReference`: an explicit variable and the secret that holds its value.
- `DeploymentSpec`: the manifest, the ops files and the explicit variables of a deployment.
- `Deployment`: the resource, of which the name counts as well.
-/

namespace DeployManifest

open Yaml (Fields View)

/-- The kinds of places a document is found at. -/
inductive ReferenceKind where
  | configMap
  | secret
  | url
  deriving DecidableEq, Repr

namespace ReferenceKind

/-- The three kinds of places that hold a document. -/
def all : List ReferenceKind := [.configMap, .secret, .url]

/-- How a kind is written in a resource. -/
def text : ReferenceKind → String
  | .configMap => "configmap"
  | .secret => "secret"
  | .url => "url"

/-- Reads the kind of a reference, which has to be one of the three texts. -/
def ofView? (view : View) : Option ReferenceKind :=
  view.variant?.bind fun name => all.find? fun k => k.text == name

end ReferenceKind

/-- A place a document is found at. -/
structure ResourceReference where
  name : String
  kind : ReferenceKind
  deriving DecidableEq, Repr

/-- Reads a reference.  Both fields have to be there, and fields that are not known are passed over. -/
def ResourceReference.ofView? (view : View) : Option ResourceReference := do
  let fields ← view.fields?
  return {
    name := ← fields.required? "name" View.text?
    kind := ← fields.required? "type" ReferenceKind.ofView? }

/-- An explicit variable and the secret that holds its value. -/
structure VarReference where
  name : String
  secret : String
  deriving DecidableEq, Repr

/-- Reads which secret holds the value of an explicit variable. -/
def VarReference.ofView? (view : View) : Option VarReference := do
  let fields ← view.fields?
  return {
    name := ← fields.required? "name" View.text?
    secret := ← fields.required? "secret" View.text? }

/-- What a deployment consists of. -/
structure DeploymentSpec where
  manifest : ResourceReference
  /-- Applied in this order. -/
  ops : List ResourceReference
  vars : List VarReference
  deriving DecidableEq, Repr

/-- Reads what a deployment is made of.  The manifest has to be there; ops files and variables need not. -/
def DeploymentSpec.ofView? (view : View) : Option DeploymentSpec := do
  let fields ← view.fields?
  return {
    manifest := ← fields.required? "manifest" ResourceReference.ofView?
    ops := ← fields.withDefault? "ops" (View.list? ResourceReference.ofView?) []
    vars := ← fields.withDefault? "vars" (View.list? VarReference.ofView?) [] }

/-- How a resource is called. -/
structure ObjectMeta where
  name : Option String
  generateName : Option String
  namespaceName : Option String
  deriving DecidableEq, Repr

namespace ObjectMeta

/-- Whether the texts and flags of a record with the given fields can be read. -/
def areReadable (fields : Fields) (texts flags : List String) : Bool :=
  texts.all (fun name => (fields.lastText? name).isSome) &&
    flags.all fun name => (fields.last? name View.bool?).isSome

/-- Reads a record of which nothing is kept. -/
def checkRecord? (texts flags : List String) (view : View) : Option Unit :=
  view.fields?.bind fun fields => if areReadable fields texts flags then some () else none

/-- Whether the fields can be read that nobody asks for. -/
def isReadable (fields : Fields) : Bool :=
  let owner := checkRecord? ["apiVersion", "kind", "name", "uid"] ["blockOwnerDeletion", "controller"]
  let manager := checkRecord? ["apiVersion", "fieldsType", "manager", "operation", "subresource"] []
  areReadable fields ["resourceVersion", "selfLink", "uid"] [] &&
    ["annotations", "labels"].all (fun name =>
      (fields.last? name (View.table? View.text?)).isSome) &&
    ["generation", "deletionGracePeriodSeconds"].all (fun name =>
      (fields.last? name View.int64?).isSome) &&
    (fields.lastTexts? "finalizers").isSome &&
    (fields.last? "ownerReferences" (View.list? owner)).isSome &&
    (fields.last? "managedFields" (View.list? manager)).isSome

/-- Reads the names of a resource.  What else stands in the metadata is not kept, but has to be readable. -/
def ofView? (view : View) : Option ObjectMeta := do
  let fields ← view.fields?
  let read : ObjectMeta := {
    name := ← fields.lastText? "name"
    generateName := ← fields.lastText? "generateName"
    namespaceName := ← fields.lastText? "namespace" }
  if isReadable fields then return read else none

/-- The name, or what the name is to be made of. -/
def anyName (m : ObjectMeta) : String := (m.name <|> m.generateName).getD ""

end ObjectMeta

/-- A deployment. -/
structure Deployment where
  metadata : ObjectMeta
  spec : DeploymentSpec
  deriving DecidableEq, Repr

namespace Deployment

/-- Reads a deployment: its metadata and what it is made of. -/
def ofView? (view : View) : Option Deployment := do
  let fields ← view.fields?
  return {
    metadata := ← fields.required? "metadata" ObjectMeta.ofView?
    spec := ← fields.required? "spec" DeploymentSpec.ofView? }

/-- The name of a deployment, blank if it has none. -/
def name (d : Deployment) : String := d.metadata.anyName

end Deployment
end DeployManifest
