import DeployManifest.Manifest.Image
import DeployManifest.Proofs.PlacementDimensions
import DeployManifest.Proofs.UpdateLevels

/-!
# Propagation of the update block

The update block of a deployment is the next level of defaults for those of its instance groups.  A group that
has no block gets all of it, and a block that a group has inherits from it (`Update.Propagates`).  Nothing else
about a group changes, and nothing else about the manifest (`InstanceGroup.InheritsUpdate`,
`propagateUpdate_eq`).

The groups are changed where they are, one after the other, and each change looks up the block of the
deployment in the manifest as it is by then (`propagateAt`).  No change touches that block, and a group that is
changed again stays as it is, so it is only which groups were visited that counts (`foldl_propagateAt`).

Main statement: `propagateUpdate_inherits`.

- `below`, `Propagates`: the block of a group below that of the deployment.
- `inheriting`, `InstanceGroup.InheritsUpdate`: a group with that block.
- `propagateAt`, `getElem?_propagateAt`: one change, and what it does to each of the groups.
-/

namespace DeployManifest

namespace Update

variable {global own found : Option Update}

/-! ## The block of one group -/

/-- Whether the update block of a group becomes another one below that of the deployment. -/
inductive Propagates : Option Update → Option Update → Option Update → Prop where
  | nothing (own : Option Update) : Propagates none own own
  | whole (global : Update) : Propagates (some global) none (some global)
  | filled {global own found : Update} (inherits : Inherits global own found) :
    Propagates (some global) (some own) (some found)

/-- The update block of a group below that of the deployment. -/
def below (global own : Option Update) : Option Update :=
  match global, own with
  | none, own => own
  | some global, none => some global
  | some global, some own => some (own.fill global)

/-- What a block becomes below that of the deployment is what propagation says. -/
theorem below_eq_iff : below global own = found ↔ Propagates global own found := by
  constructor
  · rintro rfl
    cases global with
    | none => exact .nothing own
    | some global =>
      cases own with
      | none => exact .whole global
      | some own => exact .filled (inherits_fill own global)
  · intro propagates
    cases propagates with
    | nothing => rfl
    | whole => rfl
    | filled inherits => exact congrArg some (fill_eq_iff.mpr inherits)

/-- Going below it twice changes nothing more. -/
theorem below_below (global own : Option Update) : below global (below global own) = below global own := by
  cases global with
  | none => rfl
  | some global =>
    cases own with
    | none => exact congrArg some (fill_self global)
    | some own => exact congrArg some (fill_fill own global)

end Update

namespace InstanceGroup

variable {global : Option Update} {g g' : InstanceGroup}

/-- Whether a group becomes another one below the update block of the deployment: its own block does, and
    nothing else changes. -/
structure InheritsUpdate (global : Option Update) (g g' : InstanceGroup) : Prop where
  rest : g' = { g with update := g'.update }
  update : Update.Propagates global g.update g'.update

/-- The group below the update block of the deployment. -/
def inheriting (global : Option Update) (g : InstanceGroup) : InstanceGroup :=
  { g with update := Update.below global g.update }

/-- What a group becomes is what inheriting says. -/
theorem inheriting_eq_iff : g.inheriting global = g' ↔ InheritsUpdate global g g' := by
  constructor
  · rintro rfl
    exact ⟨rfl, Update.below_eq_iff.mp rfl⟩
  · rintro ⟨rest, update⟩
    rw [rest, ← Update.below_eq_iff.mpr update]
    rfl

theorem inheriting_inheriting (global : Option Update) (g : InstanceGroup) :
    (g.inheriting global).inheriting global = g.inheriting global := by
  unfold inheriting
  rw [Update.below_below]

end InstanceGroup

namespace Manifest

variable {m : Manifest}

/-! ## All groups at once -/

/-- All groups become what they inherit, and nothing else changes. -/
theorem propagateUpdate_eq (m : Manifest) :
    m.propagateUpdate = { m with instanceGroups := m.instanceGroups.map (·.inheriting m.update) } := by
  unfold propagateUpdate
  split
  -- without a global block each group inherits nothing
  · next unset =>
    have stays : m.instanceGroups.map (·.inheriting m.update) = m.instanceGroups := by
      rw [unset]
      exact List.map_id _
    rw [stays]
  · next global set =>
    congr 1
    refine List.map_congr_left fun g _ => ?_
    unfold InstanceGroup.inheriting
    rw [set]
    cases g.update <;> rfl

/-- Each group becomes what inheriting says. -/
theorem inheritsUpdate_of_propagateUpdate (m : Manifest) :
    List.Forall₂ (InstanceGroup.InheritsUpdate m.update) m.instanceGroups m.propagateUpdate.instanceGroups := by
  rw [propagateUpdate_eq, List.forall₂_map_right_iff, List.forall₂_same]
  exact fun g _ => InstanceGroup.inheriting_eq_iff.mp rfl

theorem propagateUpdate_of_update_eq_none (unset : m.update = none) : m.propagateUpdate = m := by
  unfold propagateUpdate
  rw [unset]

/-- Propagating twice is propagating once. -/
theorem propagateUpdate_propagateUpdate (m : Manifest) : m.propagateUpdate.propagateUpdate = m.propagateUpdate := by
  rw [propagateUpdate_eq m, propagateUpdate_eq, List.map_map]
  congr 2
  funext g
  exact g.inheriting_inheriting m.update

/-! ## One group after the other -/

/-- Changes the group at a place. -/
def propagateAt (m : Manifest) (i : Nat) : Manifest :=
  { m with instanceGroups := m.instanceGroups.modify i (·.inheriting m.update) }

/-- A step changes no group but the one at its place. -/
theorem getElem?_propagateAt (m : Manifest) (i j : Nat) :
    (m.propagateAt i).instanceGroups[j]? =
      m.instanceGroups[j]?.map fun g => if i = j then g.inheriting m.update else g := by
  unfold propagateAt
  rw [List.getElem?_modify]
  split <;> simp

/-- After some steps, the groups that were visited have inherited from the block that the deployment had before
    the first step, and the others are as they were. -/
theorem foldl_propagateAt (m : Manifest) (places : List Nat) :
    places.foldl propagateAt m = { m with
      instanceGroups := m.instanceGroups.mapIdx fun j g => if j ∈ places then g.inheriting m.update else g } := by
  -- the manifest changes from step to step, but not the block that the steps look up
  induction places generalizing m with
  | nil =>
    have stays : m.instanceGroups.mapIdx (fun _ g => g) = m.instanceGroups := List.ext_getElem? (by simp)
    simp [stays]
  | cons i rest ih =>
    rw [List.foldl_cons, ih]
    change { m with instanceGroups := (m.propagateAt i).instanceGroups.mapIdx _ } = _
    congr 1
    refine List.ext_getElem? fun j => ?_
    rw [List.getElem?_mapIdx, List.getElem?_mapIdx, getElem?_propagateAt, Option.map_map]
    refine Option.map_congr fun g _ => ?_
    change (if j ∈ rest then (if i = j then g.inheriting m.update else g).inheriting m.update
      else if i = j then g.inheriting m.update else g) = _
    by_cases here : i = j
    · have visited : j ∈ i :: rest := here ▸ List.mem_cons_self
      rw [if_pos here, if_pos visited, g.inheriting_inheriting, ite_self]
    · have as_later : j ∈ i :: rest ↔ j ∈ rest := List.mem_cons.trans (or_iff_right (Ne.symm here))
      rw [if_neg here]
      simp only [as_later]

/-- Once all groups were visited, in whatever order and however often, the block is propagated. -/
theorem foldl_propagateAt_of_complete {places : List Nat}
    (complete : ∀ i < m.instanceGroups.length, i ∈ places) : places.foldl propagateAt m = m.propagateUpdate := by
  rw [foldl_propagateAt, propagateUpdate_eq]
  congr 1
  refine List.ext_getElem? fun j => ?_
  rw [List.getElem?_mapIdx, List.getElem?_map]
  refine Option.map_congr fun g there => ?_
  obtain ⟨lt, -⟩ := List.getElem?_eq_some_iff.mp there
  rw [if_pos (complete j lt)]

/-- Propagation changes nothing but the update blocks of groups, each of them as `Update.Propagates` says, and
    nothing at all if the deployment has no block.  Propagating again changes nothing, and the groups may be
    changed one by one, in any order.  Filling is associative, so that levels of defaults give the same block
    whatever the groups in which they are merged, and it is the one that `Update.IsMerged` tells from the row of
    them. -/
theorem propagateUpdate_inherits (m : Manifest) :
    m.propagateUpdate = { m with instanceGroups := m.propagateUpdate.instanceGroups } ∧
    List.Forall₂ (InstanceGroup.InheritsUpdate m.update) m.instanceGroups m.propagateUpdate.instanceGroups ∧
    (m.update = none → m.propagateUpdate = m) ∧
    m.propagateUpdate.propagateUpdate = m.propagateUpdate ∧
    (∀ places : List Nat, (∀ i < m.instanceGroups.length, i ∈ places) →
      places.foldl propagateAt m = m.propagateUpdate) ∧
    (∀ u v w : Update, (u.fill v).fill w = u.fill (v.fill w)) ∧
    ∀ l : Update.Levels, Update.IsMerged l.blocks l.merged ∧
      ∀ l' : Update.Levels, l.blocks = l'.blocks → l.merged = l'.merged := by
  refine ⟨?_, inheritsUpdate_of_propagateUpdate m, propagateUpdate_of_update_eq_none,
    propagateUpdate_propagateUpdate m, fun places complete => foldl_propagateAt_of_complete complete,
    Update.fill_assoc, fun l => ⟨l.isMerged_merged, fun l' same => Update.Levels.merged_eq_of_blocks_eq same⟩⟩
  rw [propagateUpdate_eq]

/-! ## A group with a block of its own -/

/-- A block with all settings that can be inherited. -/
def rollingUpdate : Update :=
  ⟨1, some (.int 1), some (.text "30000-1200000"), some (.text "5000-1200000"), some false, none⟩

/-- A block that says nothing but that groups are updated one by one. -/
def serialUpdate : Update := ⟨0, none, none, none, some true, none⟩

/-- A manifest with a group that has a block of its own and one that has none. -/
def rollingManifest : Manifest where
  __ := PlacementRules.webManifest
  instanceGroups := [
    { PlacementRules.webGroup with name := "partial", update := some serialUpdate },
    { PlacementRules.webGroup with name := "whole" }]
  update := some rollingUpdate

/-- A block that sets one of the watch times, and the flag. -/
def watchingUpdate : Update := ⟨3, none, some (.int 9), none, some false, some "hotswap"⟩

/-- Three levels, of which the first two, or the last two, are a group. -/
def specialLevels : Update.Levels :=
  .group (.group (.block serialUpdate) (.block watchingUpdate)) (.block rollingUpdate)

/-- The same levels in the other groups. -/
def generalLevels : Update.Levels :=
  .group (.block serialUpdate) (.group (.block watchingUpdate) (.block rollingUpdate))

/-- The first group keeps its flag and takes the watch times, and the second one takes the whole block, also if
    it is visited first and once more.  Without the block nothing changes.  A level between that of the group
    and that of the deployment may be merged with either. -/
theorem propagateUpdate_inherits_rolling :
    rollingManifest.propagateUpdate.instanceGroups.map (·.update) =
      [some { serialUpdate with
          canaryWatchTime := some (.text "30000-1200000")
          updateWatchTime := some (.text "5000-1200000") },
        some rollingUpdate] ∧
    [1, 0, 1].foldl propagateAt rollingManifest = rollingManifest.propagateUpdate ∧
    { rollingManifest with update := none }.propagateUpdate = { rollingManifest with update := none } ∧
    specialLevels.merged = generalLevels.merged ∧
    generalLevels.merged =
      { serialUpdate with
        canaryWatchTime := some (.int 9)
        updateWatchTime := some (.text "5000-1200000") } := by
  obtain ⟨-, -, -, -, in_place, -, levels⟩ := propagateUpdate_inherits rollingManifest
  obtain ⟨-, -, unset, -⟩ := propagateUpdate_inherits { rollingManifest with update := none }
  obtain ⟨-, regrouped⟩ := levels specialLevels
  exact ⟨rfl, in_place [1, 0, 1] (by decide), unset rfl, regrouped generalLevels rfl, rfl⟩

end Manifest
end DeployManifest
