import DeployManifest.Manifest.Basic
import DeployManifest.Variables.SecretRefs

/-!
# Implicit variables

The variables that a manifest refers to but does not declare are implicit: their values come from
secrets.  They are found by searching the canonical text of the manifest for placeholders.

- `implicitVariables`: the names, in order.
- `secretRefs`: the keys of secrets that back them.
-/

namespace DeployManifest.Manifest

/-- The implicit variables of a manifest. -/
def implicitVariables (m : Manifest) : Except VariableError NameSet :=
  match m.print with
  | .error e => .error (.serializeManifest e)
  | .ok text => .ok (m.declared.foldl (fun names v => names.remove v.name) (Placeholder.names text))

/-- Where the implicit variables of a manifest are read from. -/
def secretRefs (m : Manifest) : Except VariableError SecretRefs :=
  match m.implicitVariables with
  | .error e => .error e
  | .ok names => SecretRefs.ofVariables names.toList

end DeployManifest.Manifest
