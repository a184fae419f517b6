import DeployManifest.Table
import DeployManifest.Text.Quoted
import DeployManifest.Yaml.DocumentError
import DeployManifest.Variables.Placeholder
import DeployManifest.Variables.SecretName

/-!
# Where implicit variables are read from

An implicit variable is backed by a key of a secret.  A name with one slash gives both: `ca/cert`
is the key `cert` of the secret for `ca`.  A name without a slash stands for the key
`SecretKey.defaultKey`.

`SecretKey.ofVariable` finds the key of one variable, `SecretRefs.ofVariables` collects those of
many, secret by secret.
-/

namespace DeployManifest

/-- Why it cannot be said which variables are implicit or where they are read from. -/
inductive VariableError where
  /-- The manifest cannot be searched. -/
  | serializeManifest (cause : Yaml.DocumentError)
  /-- A name has more than one slash. -/
  | tooManySeparators (name : String) (separators : Nat)
  deriving DecidableEq, Repr

/-- What is reported of a variable that no key of a secret can back. -/
def VariableError.message : VariableError → String
  | .serializeManifest _ => "failed to serialize manifest to search for variables"
  | .tooManySeparators name separators =>
    "expected exactly one separator in implicit variable " ++ Text.quote name ++ ", found " ++
      toString separators

/-- A key of a secret. -/
structure SecretKey where
  secret : String
  key : String
  deriving DecidableEq, Repr

namespace SecretKey

/-- The key of variables that do not choose one. -/
def defaultKey : String := "value"

/-- The key that backs a variable. -/
def ofVariable (name : String) : Except VariableError SecretKey :=
  match Text.splitOnce? '/' name.toList with
  | some (secret, key) =>
    if key.contains '/' then
      .error (.tooManySeparators name (name.toList.count '/'))
    else .ok ⟨SecretName.ofVariable (String.ofList secret), String.ofList key⟩
  | none => .ok ⟨SecretName.ofVariable name, defaultKey⟩

/-- How a key is listed: the default key goes without saying. -/
def listed (k : SecretKey) : String :=
  if k.key == defaultKey then k.secret else k.secret ++ "/" ++ k.key

end SecretKey

/-- A variable and the key of a secret that it is read from. -/
structure SecretRef where
  key : String
  name : String
  deriving DecidableEq, Repr

/-- The variables read from each secret, in the order they were added. -/
abbrev SecretRefs := Table (List SecretRef)

namespace SecretRefs

/-- Adds a variable to those read from its secret. -/
def add (refs : SecretRefs) (secret : String) (ref : SecretRef) : SecretRefs :=
  refs.insert secret ((refs.get? secret).getD [] ++ [ref])

/-- `refs` with the given variables added. -/
def addVariables (refs : SecretRefs) : List String → Except VariableError SecretRefs
  | [] => .ok refs
  | name :: rest =>
    match SecretKey.ofVariable name with
    | .error e => .error e
    | .ok found => addVariables (refs.add found.secret ⟨found.key, name⟩) rest

/-- Collects the given variables. -/
def ofVariables (names : List String) : Except VariableError SecretRefs :=
  addVariables .empty names

/-- All keys that variables are read from, as they are listed. -/
def secretKeys (refs : SecretRefs) : List String :=
  refs.entries.flatMap fun (secret, found) => found.map fun ref => SecretKey.listed ⟨secret, ref.key⟩

end SecretRefs
end DeployManifest
