import DeployManifest.Manifest.Basic

/-!
# Links between jobs

Jobs provide links under a name, given by `as`, and consume links of a name, given by `from`.
`missingProviders` lists the names that are consumed but not provided.
-/

namespace DeployManifest

open Yaml (Value)

/-- The names that a field of links gives, blank ones apart. -/
def linkNames (links : Table Value) (field : String) : List String :=
  (links.values.filterMap fun link => (link.field? field).bind Value.asString?).filter
    fun name => !name.isEmpty

namespace Manifest

/-- All jobs of a manifest. -/
def jobs (m : Manifest) : List Job := m.instanceGroups.flatMap (·.jobs)

/-- The names of the links that some job provides. -/
def providedLinks (m : Manifest) : List String := m.jobs.flatMap fun j => linkNames j.provides "as"

/-- The names of the links that some job consumes. -/
def consumedLinks (m : Manifest) : List String :=
  m.jobs.flatMap fun j => linkNames j.consumes "from"

/-- The names of the links that are consumed but not provided. -/
def missingProviders (m : Manifest) : NameSet :=
  .ofNames (m.consumedLinks.filter fun name => !m.providedLinks.contains name)

end Manifest
end DeployManifest
