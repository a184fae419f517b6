import DeployManifest.Yaml.Source

/-!
# Documents that cannot be read or printed

Messages show the start of a document that cannot be read.

- `readOr`, `printOr`: reading and printing, with the error that is reported if it fails.
-/

namespace DeployManifest.Yaml

/-- A document that cannot be read or a tree that cannot be printed. -/
inductive DocumentError where
  | unreadable (snippet : String)
  | unprintable
  deriving DecidableEq, Repr

namespace DocumentError

/-- What is reported of such a document. -/
def message : DocumentError → String
  | .unreadable snippet => "failed to parse YAML document " ++ Text.quote snippet
  | .unprintable => "failed to serialize YAML"

end DocumentError

/-- A document that has been read, or the error that shows it. -/
def readOr {α : Type} (source : Source) (read? : Option α) : Except DocumentError α :=
  match read? with
  | some x => .ok x
  | none => .error (.unreadable source.snippet)

/-- A text that has been printed, or the error that says that it cannot be. -/
def printOr {α : Type} (print? : Option α) : Except DocumentError α :=
  match print? with
  | some x => .ok x
  | none => .error .unprintable

end DeployManifest.Yaml
