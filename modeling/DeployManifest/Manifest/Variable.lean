import DeployManifest.Yaml.Record
import DeployManifest.Yaml.View

/-!
# Declared variables

A manifest declares the variables whose values are generated for it: passwords, keys, certificates.

- `KeyUsage`, `ServiceReference`, `SecretCopy`: parts of the options.
- `VariableOptions`: how a value is generated.
- `Variable`: a declared variable, with its name and its type.
-/

namespace DeployManifest

open Yaml (Outline Value View)

/-- What a certificate is used for. -/
inductive KeyUsage where
  | clientAuth
  | serverAuth
  deriving DecidableEq, Repr

namespace KeyUsage

/-- The two purposes that a key may be used for. -/
def all : List KeyUsage := [.clientAuth, .serverAuth]

/-- How a purpose is written. -/
def text : KeyUsage → String
  | .clientAuth => "client_auth"
  | .serverAuth => "server_auth"

/-- Reads a purpose, by its name. -/
def ofView? (view : View) : Option KeyUsage :=
  view.variant?.bind fun name => all.find? fun u => u.text == name

/-- A purpose as it is written. -/
def toValue (u : KeyUsage) : Value := .string u.text

end KeyUsage

/-- A service whose addresses go into a certificate. -/
structure ServiceReference where
  name : String
  namespaceName : Option String

namespace ServiceReference

/-- Reads the name of a service, with a namespace unless it is the one of the deployment. -/
def ofView? (view : View) : Option ServiceReference := do
  let fields ← view.fields?
  return {
    name := ← fields.required? "name" View.text?
    namespaceName := ← fields.optional? "namespace" View.text? }

/-- What is read of a reference to a service. -/
def outline : Outline := .record ["name", "namespace"] []

/-- A reference to a service as it is written. -/
def toValue (r : ServiceReference) : Value := .record [
  .always "name" (.string r.name),
  .whenPresent "namespace" Value.string r.namespaceName]

end ServiceReference

/-- A place that a generated secret is copied to. -/
structure SecretCopy where
  name : String
  namespaceName : String

namespace SecretCopy

/-- Reads where a copy of a secret goes, which has to be given in full. -/
def ofView? (view : View) : Option SecretCopy := do
  let fields ← view.fields?
  return {
    name := ← fields.required? "name" View.text?
    namespaceName := ← fields.required? "namespace" View.text? }

/-- What is read of a copy. -/
def outline : Outline := .record ["name", "namespace"] []

/-- A copy as it is written. -/
def toValue (c : SecretCopy) : Value := .record [
  .always "name" (.string c.name),
  .always "namespace" (.string c.namespaceName)]

end SecretCopy

/-- How the value of a variable is generated. -/
structure VariableOptions where
  commonName : String
  alternativeNames : List String
  isCa : Bool
  ca : Option String
  extendedKeyUsage : List KeyUsage
  signerType : Option String
  serviceRef : List ServiceReference
  copies : List SecretCopy
  /-- Whether alternative names are shortened where the cluster demands it. -/
  shortenAlternativeNames : Bool

namespace VariableOptions

/-- Reads the options of a variable, all of which may be missing. -/
def ofView? (view : View) : Option VariableOptions := do
  let fields ← view.fields?
  return {
    commonName := ← fields.withDefault? "common_name" View.text? ""
    alternativeNames := ← fields.withDefault? "alternative_names" (View.list? View.text?) []
    isCa := ← fields.withDefault? "is_ca" View.bool? false
    ca := ← fields.optional? "ca" View.text?
    extendedKeyUsage := ← fields.withDefault? "extended_key_usage" (View.list? KeyUsage.ofView?) []
    signerType := ← fields.optional? "signer_type" View.text?
    serviceRef := ← fields.withDefault? "serviceRef" (View.list? ServiceReference.ofView?) []
    copies := ← fields.withDefault? "copies" (View.list? SecretCopy.ofView?) []
    shortenAlternativeNames :=
      ← fields.withDefault? "activateEKSWorkaroundForSAN" View.bool? false }

/-- What is read of the options. -/
def outline : Outline := .record
  ["common_name", "alternative_names", "is_ca", "ca", "extended_key_usage", "signer_type",
   "activateEKSWorkaroundForSAN"]
  [("serviceRef", .items ServiceReference.outline), ("copies", .items SecretCopy.outline)]

/-- The options as they are written. -/
def toValue (o : VariableOptions) : Value := .record [
  .always "common_name" (.string o.commonName),
  .unlessEmpty "alternative_names" Value.string o.alternativeNames,
  .always "is_ca" (.bool o.isCa),
  .whenPresent "ca" Value.string o.ca,
  .unlessEmpty "extended_key_usage" KeyUsage.toValue o.extendedKeyUsage,
  .whenPresent "signer_type" Value.string o.signerType,
  .unlessEmpty "serviceRef" ServiceReference.toValue o.serviceRef,
  .unlessEmpty "copies" SecretCopy.toValue o.copies,
  .whenSet "activateEKSWorkaroundForSAN" o.shortenAlternativeNames]

end VariableOptions

/-- A declared variable. -/
structure Variable where
  name : String
  kind : String
  options : Option VariableOptions

namespace Variable

/-- Reads a declared variable, which has to have a name and a type. -/
def ofView? (view : View) : Option Variable := do
  let fields ← view.fields?
  return {
    name := ← fields.required? "name" View.text?
    kind := ← fields.required? "type" View.text?
    options := ← fields.optional? "options" VariableOptions.ofView? }

/-- What is read of a declared variable. -/
def outline : Outline := .record ["name", "type"] [("options", VariableOptions.outline)]

/-- A declared variable as it is written. -/
def toValue (v : Variable) : Value := .record [
  .always "name" (.string v.name),
  .always "type" (.string v.kind),
  .whenPresent "options" VariableOptions.toValue v.options]

end Variable
end DeployManifest
