import DeployManifest.Text.Search
import DeployManifest.Text.Quoted
import DeployManifest.Manifest.Placement

/-!
# Aliases of domain names

Two addons configure names under which the instances of a deployment are found: the property
`aliases` of their jobs lists them.  `aliases` collects the aliases of a manifest; each has to be a
domain name, perhaps behind a wildcard.

- `isDomain`: whether a text is a domain name, perhaps behind a wildcard.
- `jobAliases`: the aliases of one job of one addon, or the first fault in them.
- `aliases`: those of all jobs, in the order of addons and jobs.
-/

namespace DeployManifest.Dns

open Yaml (Value View)

/-- What an alias stands for. -/
structure Target where
  query : String
  instanceGroup : String
  deployment : String
  network : String
  domain : String
  deriving DecidableEq, Repr

/-- Reads a target.  Whatever it does not give is the empty text. -/
def Target.ofView? (view : View) : Option Target := do
  let fields ← view.fields?
  return {
    query := ← fields.withDefault? "query" View.text? ""
    instanceGroup := ← fields.withDefault? "instance_group" View.text? ""
    deployment := ← fields.withDefault? "deployment" View.text? ""
    network := ← fields.withDefault? "network" View.text? ""
    domain := ← fields.withDefault? "domain" View.text? "" }

/-- A domain name and what it stands for. -/
structure Alias where
  domain : String
  targets : List Target
  deriving DecidableEq, Repr

/-- Reads an alias, which has to have a domain. -/
def Alias.ofView? (view : View) : Option Alias := do
  let fields ← view.fields?
  return {
    domain := ← fields.required? "domain" View.text?
    targets := ← fields.withDefault? "targets" (View.list? Target.ofView?) [] }

/-! ## Domain names -/

/-- The most bytes of a domain name. -/
def maxSize : Nat := 253

/-- A part of a domain name between dots: letters, digits and dashes, no dash at an end. -/
def isLabel (label : List Char) : Bool :=
  !label.isEmpty && label.all (fun c => c.isAlphanum || c = '-') &&
    label.head? ≠ some '-' && label.getLast? ≠ some '-'

/-- A text without one dot at its end. -/
def dropDot (text : List Char) : List Char :=
  if text.getLast? = some '.' then text.dropLast else text

/-- Whether a text is a domain name, perhaps with a dot behind it. -/
def isName (text : List Char) : Bool := (Text.splitAt '.' (dropDot text)).all isLabel

/-- A text without a wildcard in front. -/
def dropWildcard (text : List Char) : List Char := (Text.stripStart? ['_', '.'] text).getD text

/-- Whether a text is a domain name, perhaps behind a wildcard. -/
def isDomain (text : String) : Bool :=
  let name := dropWildcard text.toList
  (String.ofList name).utf8ByteSize ≤ maxSize && isName name

/-! ## The aliases of a manifest -/

/-- The aliases of a job that are not as they should be. -/
inductive AliasError where
  | unreadable (addon job : String)
  | invalidDomain (domain addon job : String)
  deriving DecidableEq, Repr

/-- What is reported of aliases that cannot be read or are no domain names. -/
def AliasError.message : AliasError → String
  | .unreadable addon job =>
    "failed to read aliases of job " ++ Text.quote job ++ " in addon " ++ Text.quote addon
  | .invalidDomain domain addon job =>
    "alias " ++ Text.quote domain ++ " of job " ++ Text.quote job ++ " in addon " ++
      Text.quote addon ++ " is not a valid domain name"

/-- The addons whose jobs configure aliases. -/
def addonNames : List String := [Addon.dnsName, "bosh-dns-aliases"]

/-- The first alias without a valid domain. -/
def firstInvalid? (found : List Alias) : Option Alias := found.find? fun a => !isDomain a.domain

/-- The aliases a job of an addon configures. -/
def jobAliases (addon : Addon) (job : Job) : Except AliasError (List Alias) :=
  match job.properties.properties.get? "aliases" with
  | none => .ok []
  | some value =>
    match View.list? Alias.ofView? (.tree value) with
    | none => .error (.unreadable addon.name job.name)
    | some found =>
      match firstInvalid? found with
      | some invalid => .error (.invalidDomain invalid.domain addon.name job.name)
      | none => .ok found

/-- The jobs of the addons that configure aliases. -/
def jobs (m : Manifest) : List (Addon × Job) :=
  (m.addons.filter fun a => addonNames.contains a.name).flatMap fun a => a.jobs.map fun j => (a, j)

/-- The aliases of a manifest. -/
def aliases (m : Manifest) : Except AliasError (List Alias) :=
  ((jobs m).mapM fun (addon, job) => jobAliases addon job).map List.flatten

end DeployManifest.Dns
