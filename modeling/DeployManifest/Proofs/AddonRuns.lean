import Mathlib.Data.List.Induction
import DeployManifest.Proofs.AddonInjection

/-!
# Applying addons again and again

Calls that apply the addons of a manifest may fail, and between two calls instance groups may be given
other stemcells, so that a later call may succeed where an earlier one failed.  `Manifest.after` is the
manifest behind a run of such actions.

`IsBehind` is what a run keeps: of the manifest, only the groups and the mark that addons have been
applied change; each group has its old jobs and behind them those of some of the addons, none of which
counts twice; and as long as the mark is as it was, there are no such jobs (`isBehind_step`).

Main statement: `addons_injected_once`.

- `Action`, `Manifest.after`: calls and changes of stemcells, and the manifest behind a run of them.
- `Manifest.HasSucceeded`: whether some call of a run has.
- `GrowsOnce`: how a group looks in the end.
-/

namespace DeployManifest

/-- What happens to a manifest in a run. -/
inductive Action where
  /-- A call that applies the addons. -/
  | apply (context : PlacementContext)
  /-- The group in each place is given the alias of a stemcell. -/
  | setStemcells (aliases : Nat → String)

/-- The jobs that addons add are those of some of them, in order. -/
theorem Adds.exists_sublist {m : Manifest} {context : PlacementContext} {group : InstanceGroup}
    {addons : List Addon} {added : List Job} (adds : Adds m context group addons added) :
    ∃ chosen : List Addon, chosen.Sublist (addons.filter fun a => a.name != Addon.dnsName) ∧
      added = chosen.flatMap Addon.markedJobs := by
  induction adds with
  | nil group => exact ⟨[], .slnil, rfl⟩
  | reserved name _ ih =>
    rw [List.filter_cons_of_neg (by simpa using name)]
    exact ih
  | chosen name _ _ _ ih =>
    obtain ⟨chosen, sublist, rfl⟩ := ih
    rw [List.filter_cons_of_pos (by simpa using name)]
    exact ⟨_ :: chosen, sublist.cons_cons _, rfl⟩
  | passed name _ _ _ ih =>
    obtain ⟨chosen, sublist, rfl⟩ := ih
    rw [List.filter_cons_of_pos (by simpa using name)]
    exact ⟨chosen, sublist.cons _, rfl⟩

namespace Manifest

variable {m n : Manifest} {context : PlacementContext} {actions : List Action}

/-- The manifest with other stemcells for its groups. -/
def withStemcells (m : Manifest) (aliases : Nat → String) : Manifest :=
  { m with instanceGroups := m.instanceGroups.mapIdx fun i g => { g with stemcell := aliases i } }

/-- The manifest behind one action.  A call that fails leaves it as it is then. -/
def step (m : Manifest) : Action → Manifest
  | .apply context => (m.attemptAddons context).manifest
  | .setStemcells aliases => m.withStemcells aliases

/-- The manifest behind a run. -/
def after (m : Manifest) (actions : List Action) : Manifest := actions.foldl step m

/-- Whether a call in a run has succeeded. -/
def HasSucceeded (m : Manifest) (actions : List Action) : Prop :=
  ∃ before context behind, actions = before ++ .apply context :: behind ∧
    ((m.after before).attemptAddons context).failure? = none

theorem after_concat (actions : List Action) (action : Action) :
    m.after (actions ++ [action]) = (m.after actions).step action := by
  simp [after]

theorem hasSucceeded_nil : ¬ m.HasSucceeded [] := by
  rintro ⟨before, context, behind, split, -⟩
  simp at split

/-- A call has succeeded in a run if one has before its last action, or that is one that does. -/
theorem hasSucceeded_concat {action : Action} :
    m.HasSucceeded (actions ++ [action]) ↔ m.HasSucceeded actions ∨ ∃ context,
      action = .apply context ∧ ((m.after actions).attemptAddons context).failure? = none := by
  constructor
  · rintro ⟨before, context, behind, split, succeeded⟩
    rcases List.eq_nil_or_concat behind with rfl | ⟨behind, last, rfl⟩
    · obtain ⟨rfl, rfl⟩ := List.append_singleton_inj.mp split
      exact .inr ⟨context, rfl, succeeded⟩
    · have split : actions ++ [action] = (before ++ .apply context :: behind) ++ [last] := by
        simpa using split
      obtain ⟨rfl, -⟩ := List.append_singleton_inj.mp split
      exact .inl ⟨before, context, behind, rfl, succeeded⟩
  · rintro (⟨before, context, behind, rfl, succeeded⟩ | ⟨context, rfl, succeeded⟩)
    · exact ⟨before, context, behind ++ [action], by simp, succeeded⟩
    · exact ⟨actions, context, [], rfl, succeeded⟩

/-! ## One action -/

/-- What a call that applies the addons can do: nothing, be it that they have been applied or that it
    fails, or let every group grow. -/
theorem attemptAddons_cases (m : Manifest) (context : PlacementContext) :
    (m.addonsApplied = true ∧ m.attemptAddons context = ⟨m, none⟩) ∨
      (∃ e, m.attemptAddons context = ⟨m, some e⟩) ∨
      (m.addonsApplied = false ∧ ∃ groups,
        List.Forall₂ (Grows m context m.addons) m.instanceGroups groups ∧
        m.attemptAddons context =
          ⟨{ m with instanceGroups := groups, addonsApplied := true }, none⟩) := by
  cases applied : m.addonsApplied with
  | true => exact .inl ⟨rfl, attemptAddons_of_applied applied⟩
  | false =>
    -- a run that fails leaves the manifest as it was
    rcases attempt : m.attemptAddons context with ⟨n, _ | e⟩
    · obtain ⟨groups, all, rfl⟩ := (attemptAddons_eq_none_iff applied).mp attempt
      exact .inr (.inr ⟨rfl, groups, all, rfl⟩)
    · have failed : (m.attemptAddons context).failure? = some e := by rw [attempt]
      have back := attemptAddons_of_failure failed
      rw [attempt] at back
      exact .inr (.inl ⟨e, by rw [← back]⟩)

/-- An action leaves the mark, unless it is a call that succeeds, which sets it. -/
theorem addonsApplied_step {action : Action} :
    (m.step action).addonsApplied = true ↔ m.addonsApplied = true ∨ ∃ context,
      action = .apply context ∧ (m.attemptAddons context).failure? = none := by
  cases action with
  | setStemcells aliases => simp [step, withStemcells]
  | apply context =>
    rcases m.attemptAddons_cases context with ⟨applied, attempt⟩ | ⟨e, attempt⟩ |
      ⟨fresh, groups, -, attempt⟩
    · simp [step, attempt, applied]
    · simp [step, attempt]
    · simp [step, attempt]

/-- The mark is set behind a run just if it was, or if some call of the run has succeeded. -/
theorem addonsApplied_after :
    (m.after actions).addonsApplied = true ↔ m.addonsApplied = true ∨ m.HasSucceeded actions := by
  induction actions using List.reverseRecOn with
  | nil => simp [after, hasSucceeded_nil]
  | append_singleton actions action ih =>
    rw [after_concat, addonsApplied_step, ih, hasSucceeded_concat, or_assoc]

/-! ## What a run keeps -/

/-- The addons that can be injected, which are all but the reserved one. -/
def injectable (m : Manifest) : List Addon := m.addons.filter fun a => a.name != Addon.dnsName

/-- Whether a group, perhaps given another stemcell, has its old jobs and behind them those of some
    addons, each of which counts once.  None does as long as the mark is as it was. -/
def GrowsOnce (m n : Manifest) (group grown : InstanceGroup) : Prop :=
  ∃ (chosen : List Addon) (stemcell : String), chosen.Sublist m.injectable ∧
    (n.addonsApplied = m.addonsApplied → chosen = []) ∧
    grown = { group.extendedBy (chosen.flatMap Addon.markedJobs) with stemcell := stemcell }

/-- What a run from one manifest to another keeps. -/
structure IsBehind (m n : Manifest) : Prop where
  rest : n = { m with instanceGroups := n.instanceGroups, addonsApplied := n.addonsApplied }
  marked : m.addonsApplied = true → n.addonsApplied = true
  groups : List.Forall₂ (GrowsOnce m n) m.instanceGroups n.instanceGroups

/-- A group to which no jobs have been added grows by those that a call adds. -/
theorem GrowsOnce.trans {m n last : Manifest} {group middle grown : InstanceGroup}
    (once : GrowsOnce m n group middle) (unmarked : n.addonsApplied = m.addonsApplied)
    (marked : last.addonsApplied ≠ m.addonsApplied) (same : n.addons = m.addons)
    (grows : Grows n context n.addons middle grown) : GrowsOnce m last group grown := by
  obtain ⟨none_chosen, stemcell, -, nothing, rfl⟩ := once
  obtain rfl := nothing unmarked
  obtain ⟨added, adds, rfl⟩ := grows
  obtain ⟨chosen, sublist, rfl⟩ := adds.exists_sublist
  rw [same] at sublist
  refine ⟨chosen, stemcell, sublist, fun equal => absurd equal marked, ?_⟩
  simp [InstanceGroup.extendedBy]

/-- A manifest is behind itself. -/
theorem isBehind_refl (m : Manifest) : m.IsBehind m where
  rest := rfl
  marked := id
  groups := List.forall₂_same.mpr fun group _ =>
    ⟨[], group.stemcell, List.nil_sublist _, fun _ => rfl, by simp [InstanceGroup.extendedBy]⟩

/-- One more action keeps what a run keeps. -/
theorem isBehind_step (behind : m.IsBehind n) (action : Action) : m.IsBehind (n.step action) := by
  have addons : n.addons = m.addons := by rw [behind.rest]
  cases action with
  | setStemcells aliases =>
    refine ⟨?_, behind.marked, forall₂_mapIdx behind.groups fun i g g' once => ?_⟩
    · rw [step, withStemcells]
      conv_lhs => rw [behind.rest]
    · obtain ⟨chosen, stemcell, sublist, nothing, rfl⟩ := once
      exact ⟨chosen, aliases i, sublist, nothing, rfl⟩
  | apply context =>
    rcases n.attemptAddons_cases context with ⟨-, attempt⟩ | ⟨e, attempt⟩ |
      ⟨fresh, groups, all, attempt⟩
    · rwa [step, attempt]
    · rwa [step, attempt]
    -- addons are added now, so none were added before
    · have unmarked : m.addonsApplied = false :=
        Bool.eq_false_iff.mpr fun marked => by simp [behind.marked marked] at fresh
      rw [step, attempt]
      refine ⟨?_, fun _ => rfl, ?_⟩
      · conv_lhs => rw [behind.rest]
      · refine (forall₂_comp_iff.mpr ⟨_, behind.groups, all⟩).imp fun g g' both => ?_
        obtain ⟨middle, once, grows⟩ := both
        exact once.trans (by rw [fresh, unmarked]) (by simp [unmarked]) addons grows

/-- Whatever the actions are, the invariant holds behind the run. -/
theorem isBehind_after (m : Manifest) (actions : List Action) : m.IsBehind (m.after actions) := by
  induction actions using List.reverseRecOn with
  | nil => exact isBehind_refl m
  | append_singleton actions action ih =>
    rw [after_concat]
    exact isBehind_step ih action

/-- Over any run of calls that apply the addons and of changes to stemcells, a call that fails leaves the
    manifest as it was; the mark is set just if it was from the beginning or a call has succeeded; once
    one has, every call succeeds and changes nothing.  In the end only groups and the mark differ, and
    each group has its old jobs and, behind them, those of some addons, of each of them once. -/
theorem addons_injected_once (m : Manifest) (actions : List Action) :
    let n := m.after actions
    (∀ context e, (n.attemptAddons context).failure? = some e →
      (n.attemptAddons context).manifest = n) ∧
    (n.addonsApplied = true ↔ m.addonsApplied = true ∨ m.HasSucceeded actions) ∧
    (m.HasSucceeded actions → ∀ context, n.attemptAddons context = ⟨n, none⟩) ∧
    n = { m with instanceGroups := n.instanceGroups, addonsApplied := n.addonsApplied } ∧
    List.Forall₂ (GrowsOnce m n) m.instanceGroups n.instanceGroups := by
  have behind := isBehind_after m actions
  refine ⟨fun _ _ => attemptAddons_of_failure, addonsApplied_after, fun succeeded _ => ?_,
    behind.rest, behind.groups⟩
  exact attemptAddons_of_applied (addonsApplied_after.mpr (.inr succeeded))

/-- The first addon is for the group `web`, the second one for all groups on `ubuntu`.  The stemcell of
    the group `nats` is not known. -/
def brokenManifest : Manifest where
  __ := watchingManifest
    [plainGroup "web" "default" [osJob "web"], plainGroup "nats" "unknown" [osJob "nats"]]
  addons := [
    ⟨"first", [osJob "probe"], some { openRules with instanceGroups := ["web"] }, none⟩,
    ⟨"second", [osJob "watch"], some { openRules with stemcell := [⟨"ubuntu"⟩] }, none⟩]

/-- A call that fails behind the first addon, a repair and two more calls. -/
def repairingRun : List Action :=
  [.apply ⟨"d", []⟩, .setStemcells fun _ => "default", .apply ⟨"d", []⟩, .apply ⟨"other", []⟩]

/-- A run in which the first call fails for want of a stemcell, and the second one succeeds. -/
theorem addons_injected_once_repaired :
    ((brokenManifest.attemptAddons ⟨"d", []⟩).failure? =
        some ⟨.included, "second", "nats", .stemcellNotResolved "nats"⟩ ∧
      (brokenManifest.attemptAddons ⟨"d", []⟩).manifest = brokenManifest) ∧
    (brokenManifest.HasSucceeded repairingRun ∧ ∀ context,
      (brokenManifest.after repairingRun).attemptAddons context =
        ⟨brokenManifest.after repairingRun, none⟩) ∧
    List.Forall₂ (GrowsOnce brokenManifest (brokenManifest.after repairingRun))
      brokenManifest.instanceGroups
      [plainGroup "web" "default" [osJob "web", injectedJob "probe", injectedJob "watch"],
        plainGroup "nats" "default" [osJob "nats", injectedJob "watch"]] := by
  have failed : (brokenManifest.attemptAddons ⟨"d", []⟩).failure? =
      some ⟨.included, "second", "nats", .stemcellNotResolved "nats"⟩ := rfl
  have succeeded : brokenManifest.HasSucceeded repairingRun :=
    ⟨repairingRun.take 2, ⟨"d", []⟩, [.apply ⟨"other", []⟩], rfl, rfl⟩
  obtain ⟨atomic, -⟩ := addons_injected_once brokenManifest []
  obtain ⟨-, -, idle, -, once⟩ := addons_injected_once brokenManifest repairingRun
  exact ⟨⟨failed, atomic _ _ failed⟩, ⟨succeeded, idle succeeded⟩, once⟩

end Manifest
end DeployManifest
