import DeployManifest.Proofs.NotedNames
import DeployManifest.Proofs.TableLaws
import DeployManifest.Proofs.Resolution

/-!
# Which variables are missing

The variables that are noted as missing on the way through a tree are the names of just those
placeholders in its strings that stand for nothing (`mem_missing_iff`).

- `Interpolation.IsMissingIn`: the names of placeholders that stand for nothing, without the search.
- `interpolateChecked_eq_ok`: when values are put in, for any expectations.
- `exists_standsFor`: where nothing is missing, every placeholder has a value.
-/

namespace DeployManifest

open Yaml (Value)
open Bindings (StandsFor)

namespace Interpolation

variable {b : Bindings} {usage : Usage} {name : String}

/-- Whether a placeholder of that name stands anywhere in the strings of a tree and has no value. -/
def IsMissingIn (b : Bindings) (t : Value) (name : String) : Prop :=
  ∃ s, t.HasString s ∧ ∃ p : Placeholder, p.StandsIn s.toList ∧ name = String.ofList p.name ∧
    ∀ v, ¬ StandsFor b p.name v

/-- Whether a name is missing once it is looked up: it stands for nothing. -/
def Misses (b : Bindings) (text : List Char) (name : String) : Prop :=
  name = String.ofList text ∧ ∀ v, ¬ StandsFor b text v

/-- For a string the placeholders that stand in it decide. -/
theorem isMissingIn_string {s : String} :
    IsMissingIn b (.string s) name ↔ ∃ p : Placeholder, p.StandsIn s.toList ∧
      name = String.ofList p.name ∧ ∀ v, ¬ StandsFor b p.name v := by
  unfold IsMissingIn
  simp only [Value.hasString_string_iff, exists_eq_left']

/-- A name is noted as missing when it is looked up and stands for nothing, and no other is. -/
theorem notes_missing : Notes b Usage.missing (Misses b) := by
  intro usage text name
  rw [resolve_missing]
  rcases resolve_cases b usage text with ⟨v, after, found, stands⟩ | ⟨after, found, free⟩
  · rw [found]
    exact ⟨.inl, fun mem => mem.elim id fun nothing => absurd stands (nothing.2 v)⟩
  · rw [found, NameSet.mem_add]
    exact ⟨fun mem => mem.symm.imp id fun same => ⟨same, free⟩,
      fun mem => (mem.imp id And.left).symm⟩

/-- The names noted as missing are those of the placeholders that stand for nothing. -/
theorem mem_missing_iff {t last : Value} (put : interpolate b t = .ok (last, usage)) :
    name ∈ usage.missing.toList ↔ IsMissingIn b t name :=
  mem_kept_iff notes_missing rfl put

end Interpolation

open Interpolation (IsMissingIn)

/-- Nothing is noted just if no placeholder stands for nothing. -/
theorem isEmpty_missing_iff {b : Bindings} {t last : Value} {usage : Usage}
    (put : interpolate b t = .ok (last, usage)) :
    usage.missing.isEmpty = true ↔ ∀ name, ¬ IsMissingIn b t name := by
  rw [Table.isEmpty_iff_keys]
  exact forall_congr' fun name => not_congr (Interpolation.mem_missing_iff put)

/-- Where no placeholder stands for nothing, each stands for a value. -/
theorem exists_standsFor {b : Bindings} {t : Value} {s : String} {p : Placeholder}
    (nothing : ∀ name, ¬ IsMissingIn b t name) (has : t.HasString s) (stands : p.StandsIn s.toList) :
    ∃ v, StandsFor b p.name v :=
  Classical.byContradiction fun free => nothing _ ⟨s, has, p, stands, rfl, not_exists.mp free⟩

/-- Values are put in just if nothing is missing and nothing unused where that is expected. -/
theorem interpolateChecked_eq_ok {b : Bindings} {options : EvaluateOptions} {t last : Value} :
    interpolateChecked b options t = .ok last ↔
      ∃ usage, interpolate b t = .ok (last, usage) ∧
        (options.expectAllKeys = true → usage.missing.isEmpty = true) ∧
        (options.expectAllVarsUsed = true → (unusedNames b usage).isEmpty = true) := by
  -- the two checks come one behind the other
  unfold interpolateChecked
  constructor
  · intro done
    split at done
    · cases done
    · next found usage put =>
      split at done
      · cases done
      · next present =>
        split at done
        · cases done
        · next used =>
          obtain rfl := Except.ok.inj done
          exact ⟨usage, put, by simpa using present, by simpa using used⟩
  · rintro ⟨usage, put, present, used⟩
    rw [put]
    dsimp only
    rw [if_neg (by simpa using present), if_neg (by simpa using used)]

end DeployManifest
