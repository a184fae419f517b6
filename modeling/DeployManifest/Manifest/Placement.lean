import DeployManifest.Manifest.Image

/-!
# Placing addons

Placement rules are a conjunction: an instance group is chosen if every rule that is given matches.
`PlacementRules.isMatch` says whether rules choose a group.  It fails if the stemcell rule has to
look at a job whose stemcell is not known.

`Manifest.attemptAddons` injects the jobs of all addons in place, one addon after another: the rules of
a later addon see the jobs that were injected before.  This happens once; a manifest to which addons
have been applied stays as it is, and so does one whose addons cannot all be placed.
`Manifest.applyAddons` is the manifest that comes out, if the call succeeds.

- `stemcellRule`, `jobRule`, `instanceGroupRule`, `networkRule`, `deploymentRule`, `teamRule`,
  `lifecycleRule`: what each rule allows.
- `injectInto`: one group, with or without the jobs of an addon.
- `injectAll`: all addons, and how far they have come if one of them fails.
-/

namespace DeployManifest

/-- What rules refer to beside the manifest. -/
structure PlacementContext where
  deploymentName : String
  teams : List String

/-- The two kinds of rules of an addon. -/
inductive RuleKind where
  | included
  | excluded
  deriving DecidableEq, Repr

/-- What a kind of rules is called in messages. -/
def RuleKind.text : RuleKind → String
  | .included => "include"
  | .excluded => "exclude"

/-- Rules of an addon that cannot be evaluated for an instance group. -/
structure PlacementError where
  rule : RuleKind
  addon : String
  instanceGroup : String
  cause : LookupError
  deriving DecidableEq, Repr

/-- What is reported of an addon that could not be placed, without the cause. -/
def PlacementError.message (e : PlacementError) : String :=
  "failed to evaluate " ++ e.rule.text ++ " rules of addon " ++ Text.quote e.addon ++
    " for instance group " ++ Text.quote e.instanceGroup

/-- A list of allowed values that allows everything if it is empty. -/
def allows {α : Type} (allowed : List α) (isChosen : Bool) : Bool := allowed.isEmpty || isChosen

namespace PlacementRules

/-- Whether one of the jobs runs on one of the operating systems; the jobs behind the first one that
    does are not looked at. -/
def stemcellMatches (rules : PlacementRules) (m : Manifest) (group : InstanceGroup) :
    List Job → Except LookupError Bool
  | [] => .ok false
  | job :: rest =>
    match m.jobStemcell group job with
    | .error e => .error e
    | .ok found =>
      if rules.stemcell.any fun s => s.os == found.os then .ok true
      else rules.stemcellMatches m group rest

/-- The rule on stemcells. -/
def stemcellRule (rules : PlacementRules) (m : Manifest) (group : InstanceGroup) :
    Except LookupError Bool :=
  if rules.stemcell.isEmpty then .ok true else rules.stemcellMatches m group group.jobs

/-- The rule on jobs. -/
def jobRule (rules : PlacementRules) (group : InstanceGroup) : Bool :=
  allows rules.jobs (group.jobs.any fun j => rules.jobs.contains ⟨j.name, j.release⟩)

/-- The rule on the name of the group. -/
def instanceGroupRule (rules : PlacementRules) (group : InstanceGroup) : Bool :=
  allows rules.instanceGroups (rules.instanceGroups.contains group.name)

/-- The rule on networks. -/
def networkRule (rules : PlacementRules) (group : InstanceGroup) : Bool :=
  allows rules.networks (group.networks.any fun n => rules.networks.contains n.name)

/-- The rule on the deployment. -/
def deploymentRule (rules : PlacementRules) (context : PlacementContext) : Bool :=
  allows rules.deployments (rules.deployments.contains context.deploymentName)

/-- The rule on teams. -/
def teamRule (rules : PlacementRules) (context : PlacementContext) : Bool :=
  allows rules.teams (context.teams.any rules.teams.contains)

/-- The rule on the lifecycle. -/
def lifecycleRule (rules : PlacementRules) (group : InstanceGroup) : Bool :=
  match rules.lifecycle with
  | none => true
  | some lifecycle => lifecycle.effective = group.lifecycle.effective

/-- Whether rules choose an instance group. -/
def isMatch (rules : PlacementRules) (m : Manifest) (context : PlacementContext)
    (group : InstanceGroup) : Except LookupError Bool :=
  (rules.stemcellRule m group).map fun runsOn =>
    runsOn && rules.jobRule group && rules.instanceGroupRule group && rules.networkRule group &&
      rules.deploymentRule context && rules.teamRule context && rules.lifecycleRule group

end PlacementRules

namespace Addon

/-- The addon that is handled elsewhere and never injected. -/
def dnsName : String := "bosh-dns"

/-- Whether rules that may be missing choose an instance group. -/
def ruleMatches (a : Addon) (kind : RuleKind) (rules? : Option PlacementRules) (default : Bool)
    (m : Manifest) (context : PlacementContext) (group : InstanceGroup) :
    Except PlacementError Bool :=
  match rules? with
  | none => .ok default
  | some rules => (rules.isMatch m context group).mapError fun e => ⟨kind, a.name, group.name, e⟩

/-- Whether the jobs of an addon are injected into an instance group. -/
def isMatch (a : Addon) (m : Manifest) (context : PlacementContext) (group : InstanceGroup) :
    Except PlacementError Bool :=
  match a.ruleMatches .included a.included true m context group with
  | .error e => .error e
  | .ok isIncluded =>
    (a.ruleMatches .excluded a.excluded false m context group).map fun isExcluded =>
      isIncluded && !isExcluded

/-- An instance group with the jobs of an addon, if it is chosen. -/
def injectInto (a : Addon) (m : Manifest) (context : PlacementContext) (group : InstanceGroup) :
    Except PlacementError InstanceGroup :=
  (a.isMatch m context group).map fun isChosen =>
    if isChosen then { group with jobs := group.jobs ++ a.jobs.map Job.injected } else group

end Addon

/-- A manifest behind a call that changes it in place, and why the call failed, if it did. -/
structure Attempt where
  manifest : Manifest
  failure? : Option PlacementError

namespace Manifest

/-- Injects the jobs of one addon. -/
def applyAddon (m : Manifest) (context : PlacementContext) (a : Addon) :
    Except PlacementError Manifest :=
  (m.instanceGroups.mapM (a.injectInto m context)).map fun groups =>
    { m with instanceGroups := groups }

/-- Injects the jobs of addons, one after another, up to one whose rules cannot be evaluated.  The jobs
    of the addons before that one stay. -/
def injectAll (m : Manifest) (context : PlacementContext) : List Addon → Attempt
  | [] => ⟨m, none⟩
  | a :: rest =>
    match m.applyAddon context a with
    | .error e => ⟨m, some e⟩
    | .ok m => m.injectAll context rest

/-- Injects the jobs of all addons, unless that has been done.  The addons are taken out of the manifest
    meanwhile.  If one of them cannot be placed, the instance groups become what they were. -/
def attemptAddons (m : Manifest) (context : PlacementContext) : Attempt :=
  if m.addonsApplied then ⟨m, none⟩
  else
    let placed := m.addons.filter fun a => a.name != Addon.dnsName
    let attempt := { m with addons := [] }.injectAll context placed
    let behind := { attempt.manifest with addons := m.addons }
    match attempt.failure? with
    | some e => ⟨{ behind with instanceGroups := m.instanceGroups }, some e⟩
    | none => ⟨{ behind with addonsApplied := true }, none⟩

/-- The manifest with the jobs of all addons. -/
def applyAddons (m : Manifest) (context : PlacementContext) : Except PlacementError Manifest :=
  let attempt := m.attemptAddons context
  match attempt.failure? with
  | some e => .error e
  | none => .ok attempt.manifest

end Manifest
end DeployManifest
