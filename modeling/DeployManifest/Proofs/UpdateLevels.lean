import DeployManifest.Manifest.Update

/-!
# Levels of update blocks

A block that is filled from another one takes over three settings, and each of them only where it is left
open (`Update.Inherits`).  Defaults may come from several levels, each more general than the one before it,
and the levels may be merged in groups (`Update.Levels`).

What the levels give does not depend on the groups.  It can be told from the row of the blocks alone
(`Update.IsMerged`): a setting that is inherited is that of the first block that has it, and all others are
those of the first block.  Such a reading of one row and of a second one behind it is a reading of both
(`Update.IsMerged.append`), which is all that merging ever does.

Main statement: `Update.Levels.merged_eq_of_blocks_eq`.

- `TakesDefault`, `Update.Inherits`: one setting below its default, and one block below another one.
- `fill_eq_iff`: filling a block is what inheriting says.
- `Update.IsMerged.append`, `Update.Levels.isMerged_merged`: by induction over the groups, the levels give
  what the row of their blocks says.
- `fill_assoc`, `fill_self`, `fill_fill`: so merging is associative, and doing it again changes nothing.
-/

namespace DeployManifest

/-- Whether a setting becomes another one below a default: it stays if it is set, and is the default
    otherwise. -/
inductive TakesDefault {α : Type} (default : Option α) : Option α → Option α → Prop where
  | set (x : α) : TakesDefault default (some x) (some x)
  | unset : TakesDefault default none default

/-- Taking a default is what a choice between the two gives. -/
theorem takesDefault_iff {α : Type} {default own found : Option α} :
    TakesDefault default own found ↔ (own <|> default) = found := by
  constructor
  · intro takes
    cases takes with
    | set x => rfl
    | unset => rfl
  · rintro rfl
    cases own with
    | none => exact .unset
    | some x => exact .set x

theorem takesDefault_self {α : Type} (own : Option α) : TakesDefault own own own := by
  cases own with
  | none => exact .unset
  | some x => exact .set x

namespace Update

attribute [local ext] Update

variable {u v defaults : Update} {us vs : List Update}

/-! ## One level of defaults -/

/-- Whether a block becomes another one below a block of defaults: the watch times and the serial flag take
    their defaults, and nothing else changes. -/
structure Inherits (defaults u v : Update) : Prop where
  canaries : v.canaries = u.canaries
  maxInFlight : v.maxInFlight = u.maxInFlight
  vmStrategy : v.vmStrategy = u.vmStrategy
  canaryWatchTime : TakesDefault defaults.canaryWatchTime u.canaryWatchTime v.canaryWatchTime
  updateWatchTime : TakesDefault defaults.updateWatchTime u.updateWatchTime v.updateWatchTime
  serial : TakesDefault defaults.serial u.serial v.serial

/-- A block that has been filled inherits. -/
theorem inherits_fill (u defaults : Update) : Inherits defaults u (u.fill defaults) where
  canaries := rfl
  maxInFlight := rfl
  vmStrategy := rfl
  canaryWatchTime := takesDefault_iff.mpr rfl
  updateWatchTime := takesDefault_iff.mpr rfl
  serial := takesDefault_iff.mpr rfl

/-- Filling a block is what inheriting says. -/
theorem fill_eq_iff : u.fill defaults = v ↔ Inherits defaults u v := by
  constructor
  · rintro rfl
    exact inherits_fill u defaults
  · intro inherits
    exact Update.ext inherits.canaries.symm inherits.maxInFlight.symm
      (takesDefault_iff.mp inherits.canaryWatchTime) (takesDefault_iff.mp inherits.updateWatchTime)
      (takesDefault_iff.mp inherits.serial) inherits.vmStrategy.symm

/-! ## Several levels -/

/-- Levels of blocks, from the most special to the most general one, and the groups in which they are
    merged. -/
inductive Levels where
  | block (u : Update)
  | group (special general : Levels)

namespace Levels

/-- The block that levels give: that of the special ones, filled from that of the general ones. -/
def merged : Levels → Update
  | block u => u
  | group special general => special.merged.fill general.merged

/-- The blocks of all levels. -/
def blocks : Levels → List Update
  | block u => [u]
  | group special general => special.blocks ++ general.blocks

end Levels

/-- Whether a block is what a row of levels gives: an inherited setting is that of the first level that has
    it, and all others are those of the first level. -/
structure IsMerged (us : List Update) (u : Update) : Prop where
  first : ∃ v, us.head? = some v ∧
    u.canaries = v.canaries ∧ u.maxInFlight = v.maxInFlight ∧ u.vmStrategy = v.vmStrategy
  canaryWatchTime : u.canaryWatchTime = us.findSome? canaryWatchTime
  updateWatchTime : u.updateWatchTime = us.findSome? updateWatchTime
  serial : u.serial = us.findSome? serial

/-- There is one reading of a row. -/
theorem IsMerged.unique (merged : IsMerged us u) (merged' : IsMerged us v) : u = v := by
  obtain ⟨first, here, canaries, maxInFlight, vmStrategy⟩ := merged.first
  obtain ⟨first', here', canaries', maxInFlight', vmStrategy'⟩ := merged'.first
  obtain rfl := Option.some.inj (here.symm.trans here')
  exact Update.ext (canaries.trans canaries'.symm) (maxInFlight.trans maxInFlight'.symm)
    (merged.canaryWatchTime.trans merged'.canaryWatchTime.symm)
    (merged.updateWatchTime.trans merged'.updateWatchTime.symm)
    (merged.serial.trans merged'.serial.symm) (vmStrategy.trans vmStrategy'.symm)

/-- A single block is read as it is. -/
theorem isMerged_singleton (u : Update) : IsMerged [u] u where
  first := ⟨u, rfl, rfl, rfl, rfl⟩
  canaryWatchTime := by simp
  updateWatchTime := by simp
  serial := by simp

/-- A setting is looked for in further levels only if no level before them has it. -/
theorem orElse_eq_findSome?_append {α : Type} {setting : Update → Option α} {x y : Option α}
    (here : x = us.findSome? setting) (behind : y = vs.findSome? setting) :
    (x <|> y) = (us ++ vs).findSome? setting := by
  rw [List.findSome?_append, ← here, ← behind]
  exact Option.orElse_eq_or

/-- Further levels go behind those that a block was made from. -/
theorem IsMerged.append (merged : IsMerged us u) (merged' : IsMerged vs v) :
    IsMerged (us ++ vs) (u.fill v) where
  first := by
    obtain ⟨first, here, same⟩ := merged.first
    refine ⟨first, ?_, same⟩
    rw [List.head?_append, here, Option.some_or]
  canaryWatchTime := orElse_eq_findSome?_append merged.canaryWatchTime merged'.canaryWatchTime
  updateWatchTime := orElse_eq_findSome?_append merged.updateWatchTime merged'.updateWatchTime
  serial := orElse_eq_findSome?_append merged.serial merged'.serial

theorem Levels.isMerged_merged (l : Levels) : IsMerged l.blocks l.merged := by
  induction l with
  | block u => exact isMerged_singleton u
  | group special general ih ih' => exact ih.append ih'

/-- The same levels give the same block, whatever the groups in which they are merged. -/
theorem Levels.merged_eq_of_blocks_eq {l l' : Levels} (same : l.blocks = l'.blocks) : l.merged = l'.merged := by
  have merged : IsMerged l'.blocks l.merged := same ▸ l.isMerged_merged
  exact merged.unique l'.isMerged_merged

/-! ## Laws of filling -/

/-- The smallest change of groups: which of three levels are merged first does not count. -/
theorem fill_assoc (u v w : Update) : (u.fill v).fill w = u.fill (v.fill w) := by
  have same : (Levels.group (.group (.block u) (.block v)) (.block w)).blocks =
      (Levels.group (.block u) (.group (.block v) (.block w))).blocks := rfl
  exact Levels.merged_eq_of_blocks_eq same

/-- A block takes nothing new from itself. -/
theorem fill_self (u : Update) : u.fill u = u :=
  fill_eq_iff.mpr ⟨rfl, rfl, rfl, takesDefault_self _, takesDefault_self _, takesDefault_self _⟩

/-- Defaults that were taken once are not taken again. -/
theorem fill_fill (u defaults : Update) : (u.fill defaults).fill defaults = u.fill defaults := by
  rw [fill_assoc, fill_self]

end Update
end DeployManifest
